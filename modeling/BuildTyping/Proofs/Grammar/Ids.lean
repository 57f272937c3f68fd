import BuildTyping.Proofs.Grammar.Statement
import BuildTyping.Proofs.Syntax.PostOrder
import Mathlib.Data.List.Nodup

/-!
# Ids

The ids of the expressions of a program number its nodes from zero on, each node right after all
that is within it. This holds of every list of tokens that is read as a program.
-/

namespace BuildTyping

mutual

/-- A tree takes the ids from the first count up to the second, in this order. -/
theorem Tree.ids_postorder : ∀ {ts : List Token} {n n' : Nat} {e : Expr}, Tree ts n e n' →
    n ≤ n' ∧ e.postorder.map Expr.id = List.range' n (n' - n)
  | _, _, _, _, @Tree.node _ _ n n' _ parts _ _ => by
    obtain ⟨hle, hids⟩ := parts.ids_postorder
    refine ⟨by omega, ?_⟩
    rw [Expr.postorder_eq, List.map_append, hids, show n' + 1 - n = n' - n + 1 by omega,
      List.range'_1_concat, show n + (n' - n) = n' by omega]
    rfl
  | _, _, _, _, @Tree.group _ _ _ e _ _ inner _ _ => by
    -- the span is not part of the id
    have h := inner.ids_postorder
    rw [Expr.postorder_eq] at h ⊢
    simpa using h

theorem Forest.ids_postorder : ∀ {own ts : List Token} {n n' : Nat} {es : List Expr},
    Forest own ts n es n' →
    n ≤ n' ∧ (es.flatMap Expr.postorder).map Expr.id = List.range' n (n' - n)
  | _, _, _, _, _, .nil n => ⟨Nat.le_refl n, by simp⟩
  | _, _, _, _, _, .own t rest => rest.ids_postorder
  | _, _, _, _, _, @Forest.tree _ _ _ n mid n' _ _ first rest => by
    obtain ⟨hle, hids⟩ := first.ids_postorder
    obtain ⟨hle', hids'⟩ := rest.ids_postorder
    refine ⟨by omega, ?_⟩
    rw [List.flatMap_cons, List.map_append, hids, hids',
      show n' - n = (mid - n) + (n' - mid) by omega, ← List.range'_append_1,
      show n + (mid - n) = mid by omega]

end

namespace Program

variable {ts : List Token} {source : List Char} {file : String} {p : Program} {r : Reader}

theorem map_id_postorder (h : ofTokens ts file = .ok p r) :
    p.postorder.map Expr.id = List.range r.count := by
  obtain ⟨own, hstack⟩ :=
    program_stacked Grammar.standard_solid file (Reader.ended_start ts file) h
  obtain ⟨own', us, -, hforest⟩ := hstack.gathers
  have hids := hforest.ids_postorder.2
  rw [Reader.count_start, Nat.sub_zero, ← List.range_eq_range'] at hids
  exact hids

theorem ids_perm_of_tokens (h : ofTokens ts file = .ok p r) :
    (p.nodes.map Expr.id).Perm (List.range r.count) := by
  rw [← map_id_postorder h]
  exact (p.postorder_perm.map Expr.id).symm

/-- The ids of a program that is read from a source are the numbers of its expressions. -/
theorem ids_perm (h : ofSource source file = .ok p) :
    (p.nodes.map Expr.id).Perm (List.range p.nodes.length) := by
  obtain ⟨ts, r, -, hp⟩ := ofSource_ok.1 h
  have hperm := ids_perm_of_tokens hp
  have hlength := hperm.length_eq
  rw [List.length_map, List.length_range] at hlength
  rwa [hlength]

theorem nodup_ids (h : ofSource source file = .ok p) : (p.nodes.map Expr.id).Nodup :=
  (ids_perm h).symm.nodup List.nodup_range

/-- Whatever tokens a program is read from, its nodes, each after its parts, have the ids that the
reader gave out, in order. So no two have the same id, no id is left out, and every part has a
smaller id than the whole. -/
theorem ids_number_nodes (h : ofTokens ts file = .ok p r) :
    p.postorder.map Expr.id = List.range r.count ∧ p.postorder.Perm p.nodes ∧
    (p.nodes.map Expr.id).Nodup ∧ (∀ id < r.count, ∃ e ∈ p.nodes, e.id = id) ∧
    ∀ e ∈ p.nodes, ∀ part ∈ e.shape.parts, part.id < e.id := by
  have hids := map_id_postorder h
  have hperm := ids_perm_of_tokens h
  refine ⟨hids, p.postorder_perm, hperm.symm.nodup List.nodup_range, ?_, ?_⟩
  · intro id hid
    exact List.mem_map.1 (hperm.mem_iff.2 (List.mem_range.2 hid))
  · intro e he part hp
    have hsorted : (p.postorder.map Expr.id).Pairwise (· < ·) := by
      rw [hids]
      exact List.pairwise_lt_range
    have hpair := hsorted.sublist ((part_sublist_postorder he hp).map Expr.id)
    simpa using hpair

/-- The brackets around the sum take no id. -/
theorem ids_number_nodes_define :
    let source := "def f(a = 1): return (a + [x for x in a])\n".toList
    ∃ ts p r, tokens source "BUILD" = .ok ts ∧ ofTokens ts "BUILD" = .ok p r ∧ r.count = 7 ∧
      p.nodes.map Expr.id = [0, 6, 1, 5, 2, 3, 4] ∧ p.postorder.map Expr.id = List.range r.count ∧
      ∀ e ∈ p.nodes, ∀ part ∈ e.shape.parts, part.id < e.id := by
  intro source
  have hrun : (ofSource source "BUILD").toOption.map (fun p => p.nodes.map Expr.id)
      = some [0, 6, 1, 5, 2, 3, 4] := by
    decide +kernel
  cases hp : ofSource source "BUILD" with
  | error fault =>
    rw [hp] at hrun
    simp [Except.toOption] at hrun
  | ok p =>
    rw [hp] at hrun
    have hnodes : p.nodes.map Expr.id = [0, 6, 1, 5, 2, 3, 4] := Option.some.inj hrun
    obtain ⟨ts, r, hts, hq⟩ := ofSource_ok.1 hp
    obtain ⟨hids, hperm, -, -, hparts⟩ := ids_number_nodes hq
    have hcount : r.count = 7 := by
      have hlength := ((hperm.map Expr.id).symm.trans (.of_eq hids)).length_eq
      rwa [hnodes, List.length_range, eq_comm] at hlength
    exact ⟨ts, p, r, hts, hq, hcount, hnodes, hids, hparts⟩

end Program

end BuildTyping
