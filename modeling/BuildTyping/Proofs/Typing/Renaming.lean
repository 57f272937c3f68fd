import BuildTyping.Proofs.Typing.Counterpart
import Mathlib.Logic.Equiv.Basic

/-!
# Types of parallel programs

Types come from which names coincide and from nothing else about names. Labels, attributes and the
names of functions are never bound nor looked up. Nor do types depend on the operators and on the
order of the operands, since the evaluation of an expression leaves no trace in the environment.
-/

namespace BuildTyping

variable {r : Renaming} {E : Expr → Expr → Prop}

namespace Expr

variable {e e' : Expr} {es es' : List Expr}

/-- The two expressions play the same part in all that is within them. -/
abbrev SameThroughout (r : Renaming) (e e' : Expr) : Prop := e.Same r e' (e.nodes.map Expr.id)

theorem allSame_of_forall₂ (h : List.Forall₂ (SameThroughout r) es es') :
    AllSame r es es' ((es.flatMap nodes).map Expr.id) := by
  induction h with
  | nil => exact .nil
  | cons first _ ih =>
    rw [List.flatMap_cons, List.map_append]
    exact .cons first ih

theorem Renamed.same (h : e.Renamed r.apply e') : e.SameThroughout r e' := by
  induction e using inductionOnParts generalizing e' with
  | step e ih =>
    cases h with
    | node frame parts =>
      rw [SameThroughout, nodes_eq]
      exact .of_frame (congrArg Shape.unsigned frame)
        (allSame_of_forall₂ (forall₂_imp_of_mem parts ih))

theorem Reordered.same (h : e.Reordered e') : e.SameThroughout .refl e' := by
  induction e using inductionOnParts generalizing e' with
  | step e ih =>
    cases h with
    | node frame parts =>
      rw [SameThroughout, nodes_eq]
      refine .of_frame ?_ (allSame_of_forall₂ (forall₂_imp_of_mem parts ih))
      rw [Renaming.apply_refl, Shape.rename_id, Shape.unlabelled_unsigned,
        Shape.unlabelled_unsigned, frame]
    | @swapped _ _ _ left left' right right' op op' first second =>
      have hleft := ih left (by simp [Shape.parts]) first
      have hright := ih right (by simp [Shape.parts]) second
      simpa [SameThroughout, nodes_eq ⟨_, _, .binary op left right⟩, Shape.parts]
        using hleft.swapped op op' hright

end Expr

theorem Parameter.allSame_of_forall₂ {ps ps' : List Parameter}
    (hE : ∀ {e e'}, E e e' → e.SameThroughout r e')
    (h : List.Forall₂ (Parameter.Parallel E r.apply) ps ps') :
    AllSame r ps ps' (((ps.filterMap Parameter.default).flatMap Expr.nodes).map Expr.id) := by
  induction h with
  | nil => exact .nil
  | @cons p p' ps ps' first _ ih =>
    have hdefault := Expr.allSame_of_forall₂ (first.default.imp fun _ _ => hE)
    have hfirst := ih.cons first.name.symm hdefault
    cases hp : p.default <;> simpa [hp] using hfirst

namespace Stmt

variable {s s' : Stmt} {ss ss' : List Stmt}

theorem blockSame_of_forall₂
    (h : List.Forall₂ (fun s s' => s.Same r s' (s.nodes.map Expr.id)) ss ss') :
    BlockSame r ss ss' ((ss.flatMap nodes).map Expr.id) := by
  induction h with
  | nil => exact .nil
  | cons first _ ih =>
    rw [List.flatMap_cons, List.map_append]
    exact .cons first ih

theorem Parallel.same (hE : ∀ {e e'}, E e e' → e.SameThroughout r e')
    (h : s.Parallel E r.apply s') : s.Same r s' (s.nodes.map Expr.id) := by
  induction s using inductionOnBodies generalizing s' with
  | step s ih =>
    rw [nodes_eq]
    cases h with
    | expression value => simpa [Form.exprs, Form.bodies] using .expression (hE value)
    | assign target value =>
      simpa [Form.exprs, Form.bodies] using .assign (hE target) (hE value)
    | augment op target value =>
      simpa [Form.exprs, Form.bodies] using .augment op op (hE target) (hE value)
    | define name name' parameters body =>
      have hbody := blockSame_of_forall₂ (forall₂_imp_of_mem body ih)
      simpa [Form.exprs, Form.bodies]
        using .define name name' (Parameter.allSame_of_forall₂ hE parameters) hbody
    | return_ value =>
      simpa [Form.exprs, Form.bodies]
        using .return_ (Expr.allSame_of_forall₂ (value.imp fun _ _ => hE))
    | branch condition body other =>
      have hbody := blockSame_of_forall₂ (forall₂_imp_of_mem body fun s hs =>
        ih s (List.mem_append_left _ hs))
      have hother := blockSame_of_forall₂ (forall₂_imp_of_mem other fun s hs =>
        ih s (List.mem_append_right _ hs))
      simpa [Form.exprs, Form.bodies] using .branch (hE condition) hbody hother
    | loop target iterable body =>
      have hbody := blockSame_of_forall₂ (forall₂_imp_of_mem body ih)
      simpa [Form.exprs, Form.bodies] using .loop (hE target) (hE iterable) hbody
    | pass | break_ | continue_ => exact fun env => ⟨rfl, .nil⟩

end Stmt

namespace Program

variable {p p' : Program}

theorem types_eq_of_parallel (hids : ∀ {e e'}, E e e' → SameIds e.nodes e'.nodes)
    (hE : ∀ {e e'}, E e e' → e.SameThroughout r e') (h : p.Parallel E r.apply p')
    (hp : (p.nodes.map Expr.id).Nodup) (id : Nat) : p'.types[id]? = p.types[id]? := by
  have hnodes := h.sameIds hids
  by_cases hid : id ∈ p.nodes.map Expr.id
  · have hsame := Stmt.blockSame_of_forall₂ (h.imp fun _ _ => Stmt.Parallel.same hE)
    have hagree : Visits.Agree (p.nodes.map Expr.id) p.visits p'.visits := by
      rw [nodes, roots, List.flatMap_assoc]
      exact (hsame .empty).2
    obtain ⟨v, hv, v', hv', rfl, hid', htype⟩ := hagree id hid
    rw [getElem?_types hp hv, ← hid', getElem?_types (hnodes.symm.nodup hp) hv', htype]
  · have unknown {q : Program} (hq : id ∉ q.nodes.map Expr.id) : q.types[id]? = none := by
      refine Std.TreeMap.getElem?_eq_none fun hmem => hq ?_
      obtain ⟨e, he, rfl⟩ := exists_node_of_mem_types hmem
      exact List.mem_map_of_mem he
    rw [unknown hid, unknown (mt hnodes.mem_iff.1 hid)]

/-- Where all ids differ, the types are the same when all names are renamed, whatever becomes of
the labels of arguments, of the names of attributes and of the names of functions. -/
theorem types_eq_of_renamed (r : Renaming)
    (h : p.Parallel (Expr.Renamed r.apply) r.apply p') (hp : (p.nodes.map Expr.id).Nodup)
    (id : Nat) : p'.types[id]? = p.types[id]? :=
  types_eq_of_parallel Expr.Renamed.sameIds Expr.Renamed.same h hp id

/-- The names `x` and `y` are swapped, also those of a parameter and of the target of a loop. The
label of an argument becomes `str`, the function `f` becomes `x`, and the attribute `y`. -/
theorem types_eq_of_renamed_swap :
    let r : Renaming := ⟨Equiv.swap "x" "y", (Equiv.swap "x" "y").injective, by decide +kernel⟩
    let name (id : Nat) (label : String) : Expr := ⟨id, default, .name label⟩
    let call (id : Nat) (callee : Expr) (arguments : List (Argument Expr)) : Expr :=
      ⟨id, default, .call callee arguments⟩
    let one : Expr := ⟨1, default, .literal (.int 1)⟩
    let p : Program := ⟨[⟨default, .assign (name 0 "x") one⟩,
      ⟨default, .define "f" [⟨"y", .normal, some (name 2 "x"), default⟩]
        [⟨default, .return_ (call 6 (name 3 "f")
          [.keyword "x" default ⟨5, default, .member (name 4 "y") "size"⟩])⟩]⟩,
      ⟨default, .loop (name 7 "y") (name 8 "x")
        [⟨default, .expression (call 11 (name 9 "str") [.positional (name 10 "y")])⟩]⟩],
      default, "BUILD"⟩
    let p' : Program := ⟨[⟨default, .assign (name 0 "y") one⟩,
      ⟨default, .define "x" [⟨"x", .normal, some (name 2 "y"), default⟩]
        [⟨default, .return_ (call 6 (name 3 "f")
          [.keyword "str" default ⟨5, default, .member (name 4 "x") "y"⟩])⟩]⟩,
      ⟨default, .loop (name 7 "x") (name 8 "y")
        [⟨default, .expression (call 11 (name 9 "str") [.positional (name 10 "x")])⟩]⟩],
      default, "BUILD"⟩
    p.Parallel (Expr.Renamed r.apply) r.apply p' ∧ (p.nodes.map Expr.id).Nodup ∧
    (∀ id : Nat, p'.types[id]? = p.types[id]?) ∧
    p.types.toList = [(1, .int), (2, .int), (4, .int), (8, .int), (11, .string)] := by
  intro r name call one p p'
  have hname (id : Nat) {label label' : String} (h : r.apply label = label') :
      (name id label).Renamed r.apply (name id label') := .node (congrArg Shape.name h) .nil
  have hone : one.Renamed r.apply one := .node rfl .nil
  have hdefault : Parameter.Parallel (Expr.Renamed r.apply) r.apply
      ⟨"y", .normal, some (name 2 "x"), default⟩ ⟨"x", .normal, some (name 2 "y"), default⟩ :=
    ⟨by decide +kernel, .cons (hname 2 (by decide +kernel)) .nil⟩
  have hmember : Expr.Renamed r.apply ⟨5, default, .member (name 4 "y") "size"⟩
      ⟨5, default, .member (name 4 "x") "y"⟩ :=
    .node rfl (.cons (hname 4 (by decide +kernel)) .nil)
  have hp : p.Parallel (Expr.Renamed r.apply) r.apply p' :=
    .cons (.assign (hname 0 (by decide +kernel)) hone) <|
    .cons (.define "f" "x" (.cons hdefault .nil)
      (.cons (.return_ (.cons (.node rfl (.cons (hname 3 (by decide +kernel))
        (.cons hmember .nil))) .nil)) .nil)) <|
    .cons (.loop (hname 7 (by decide +kernel)) (hname 8 (by decide +kernel))
      (.cons (.expression (.node rfl (.cons (hname 9 (by decide +kernel))
        (.cons (hname 10 (by decide +kernel)) .nil)))) .nil)) .nil
  have hids : (p.nodes.map Expr.id).Nodup := by decide +kernel
  exact ⟨hp, hids, types_eq_of_renamed r hp hids, by decide +kernel⟩

/-- Where all ids differ, the types are the same when operators are replaced and the operands of
binary operations are swapped. -/
theorem types_eq_of_reordered (h : p.Parallel Expr.Reordered id p')
    (hp : (p.nodes.map Expr.id).Nodup) (id : Nat) : p'.types[id]? = p.types[id]? :=
  types_eq_of_parallel Expr.Reordered.sameIds Expr.Reordered.same h hp id

/-- In `(x + y) * [-x for x in x]`, after `x = 1`, the operands of the product and of the sum are
swapped, and all operators are replaced. -/
theorem types_eq_of_reordered_product :
    let name (id : Nat) (label : String) : Expr := ⟨id, default, .name label⟩
    let one : Expr := ⟨1, default, .literal (.int 1)⟩
    let sum (op : BinaryOp) (left right : Expr) : Expr := ⟨4, default, .binary op left right⟩
    let loop (op : UnaryOp) : Expr := ⟨9, default, .listComp ⟨6, default, .unary op (name 5 "x")⟩
      [.each (name 7 "x") (name 8 "x")]⟩
    let product (op : BinaryOp) (left right : Expr) : Expr := ⟨10, default, .binary op left right⟩
    let p : Program := ⟨[⟨default, .assign (name 0 "x") one⟩, ⟨default, .expression
      (product .multiply (sum .add (name 2 "x") (name 3 "y")) (loop .negate))⟩], default, "BUILD"⟩
    let p' : Program := ⟨[⟨default, .assign (name 0 "x") one⟩, ⟨default, .expression
      (product .equal (loop .not_) (sum .in_ (name 3 "y") (name 2 "x")))⟩], default, "BUILD"⟩
    p.Parallel Expr.Reordered id p' ∧ (p.nodes.map Expr.id).Nodup ∧
    (∀ id : Nat, p'.types[id]? = p.types[id]?) ∧
    p.types.toList = [(1, .int), (2, .int), (4, .int), (8, .int), (10, .int)] := by
  intro name one sum loop product p p'
  have hname (id : Nat) (label : String) : (name id label).Reordered (name id label) :=
    .node rfl .nil
  have hsum : (sum .add (name 2 "x") (name 3 "y")).Reordered
      (sum .in_ (name 3 "y") (name 2 "x")) := .swapped .add .in_ (hname 2 "x") (hname 3 "y")
  have hloop : (loop .negate).Reordered (loop .not_) :=
    .node rfl (.cons (.node rfl (.cons (hname 5 "x") .nil))
      (.cons (hname 7 "x") (.cons (hname 8 "x") .nil)))
  have hp : p.Parallel Expr.Reordered id p' :=
    .cons (.assign (hname 0 "x") (.node rfl .nil)) <|
    .cons (.expression (.swapped .multiply .equal hsum hloop)) .nil
  have hids : (p.nodes.map Expr.id).Nodup := by decide +kernel
  exact ⟨hp, hids, types_eq_of_reordered hp hids, by decide +kernel⟩

end Program

end BuildTyping
