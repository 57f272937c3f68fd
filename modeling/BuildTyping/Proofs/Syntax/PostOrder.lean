import BuildTyping.Syntax.Stmt
import Mathlib.Data.List.Perm.Basic

/-!
# Nodes after their parts

A second listing of the nodes of a program, in which every node comes right after all that is
within it. It holds the same nodes as the listing from the outside in.
-/

namespace BuildTyping

namespace Expr

/-- The expression and all expressions within it, each after its parts. -/
def postorder (e : Expr) : List Expr :=
  (e.shape.parts.attach.flatMap fun ⟨part, h⟩ =>
    have := sizeOf_lt_of_mem_parts h
    part.postorder) ++ [e]
  termination_by sizeOf e

theorem postorder_eq (e : Expr) : e.postorder = e.shape.parts.flatMap postorder ++ [e] := by
  rw [postorder, List.flatMap_subtype (g := postorder) (fun _ _ => rfl), List.unattach_attach]

theorem postorder_perm (e : Expr) : e.postorder.Perm e.nodes := by
  induction e using inductionOnParts with
  | step e ih =>
    rw [postorder_eq, nodes_eq]
    have hparts : (e.shape.parts.flatMap postorder).Perm (e.shape.parts.flatMap nodes) :=
      List.Perm.flatMap_left _ ih
    exact (hparts.append_right [e]).trans (List.perm_append_singleton e _)

/-- A part comes before the node that it is a part of. -/
theorem part_sublist_postorder {e inner part : Expr} (hi : inner ∈ e.nodes)
    (hp : part ∈ inner.shape.parts) : [part, inner].Sublist e.postorder := by
  induction e using inductionOnParts with
  | step e ih =>
    rw [postorder_eq]
    rw [nodes_eq] at hi
    rcases List.mem_cons.1 hi with rfl | hi
    · have hpart : part ∈ inner.shape.parts.flatMap postorder :=
        List.mem_flatMap.2 ⟨part, hp, by simp [postorder_eq part]⟩
      exact (List.singleton_sublist.2 hpart).append (List.Sublist.refl [inner])
    · obtain ⟨child, hc, hi⟩ := List.mem_flatMap.1 hi
      have hchild : child.postorder.Sublist (e.shape.parts.flatMap postorder) :=
        List.sublist_flatten_of_mem (List.mem_map_of_mem hc)
      exact ((ih child hc hi).trans hchild).trans (List.sublist_append_left _ _)

end Expr

namespace Program

/-- All expressions of the program, each after its parts and otherwise in order. -/
def postorder (p : Program) : List Expr := p.roots.flatMap Expr.postorder

theorem postorder_perm (p : Program) : p.postorder.Perm p.nodes :=
  List.Perm.flatMap_left _ fun e _ => e.postorder_perm

theorem part_sublist_postorder {p : Program} {e part : Expr} (he : e ∈ p.nodes)
    (hp : part ∈ e.shape.parts) : [part, e].Sublist p.postorder := by
  obtain ⟨root, hroot, he⟩ := List.mem_flatMap.1 he
  exact (Expr.part_sublist_postorder he hp).trans
    (List.sublist_flatten_of_mem (List.mem_map_of_mem hroot))

end Program

end BuildTyping
