import BuildTyping.Proofs.Syntax.Bare
import BuildTyping.Syntax.Stmt

/-!
# Programs that differ inside scopes

Two programs are alike when they differ only in what is inside comprehensions and functions, and in
statements that bind no name where they stand. The ids of the nodes that they have in common, and
that are in no part that was changed, are kept in a list.
-/

namespace BuildTyping

/-- The shape with nothing in the places of its parts. -/
def Shape.frame {α : Type} (s : Shape α) : Shape Unit := (s.map fun _ => ()).bare

mutual

/-- The expressions are the same but for what is inside some comprehensions. The nodes in common
have the ids `ids`, in either expression. -/
inductive Expr.Alike : Expr → Expr → List Nat → Prop where
  | node {id : Nat} {span span' : Span} {shape shape' : Shape Expr} {ids : List Nat}
      (frame : shape.frame = shape'.frame) (parts : Expr.AllAlike shape.parts shape'.parts ids) :
      Expr.Alike ⟨id, span, shape⟩ ⟨id, span', shape'⟩ (id :: ids)
  | listComp {id : Nat} {span span' : Span} {clauses clauses' : List (Clause Expr)}
      {ids : List Nat} (element element' : Expr) (lead : Clause.LeadAlike clauses clauses' ids) :
      Expr.Alike ⟨id, span, .listComp element clauses⟩ ⟨id, span', .listComp element' clauses'⟩
        (id :: ids)
  | dictComp {id : Nat} {span span' : Span} {clauses clauses' : List (Clause Expr)}
      {ids : List Nat} (entry entry' : Entry Expr) (lead : Clause.LeadAlike clauses clauses' ids) :
      Expr.Alike ⟨id, span, .dictComp entry clauses⟩ ⟨id, span', .dictComp entry' clauses'⟩
        (id :: ids)

/-- The expressions are alike one by one. -/
inductive Expr.AllAlike : List Expr → List Expr → List Nat → Prop where
  | nil : Expr.AllAlike [] [] []
  | cons {e e' : Expr} {es es' : List Expr} {ids ids' : List Nat} (first : Expr.Alike e e' ids)
      (rest : Expr.AllAlike es es' ids') : Expr.AllAlike (e :: es) (e' :: es') (ids ++ ids')

/-- The clauses are alike up to some place, and behind it they may be any. What a clause goes over
is read before its target is bound, so it may stay where the target is changed. -/
inductive Clause.LeadAlike : List (Clause Expr) → List (Clause Expr) → List Nat → Prop where
  | any (cs cs' : List (Clause Expr)) : Clause.LeadAlike cs cs' []
  | over {i i' : Expr} {ids : List Nat} (t t' : Expr) (cs cs' : List (Clause Expr))
      (iterable : Expr.Alike i i' ids) : Clause.LeadAlike (.each t i :: cs) (.each t' i' :: cs') ids
  | each {t t' i i' : Expr} {cs cs' : List (Clause Expr)} {ids ids' ids'' : List Nat}
      (target : Expr.Alike t t' ids) (iterable : Expr.Alike i i' ids')
      (rest : Clause.LeadAlike cs cs' ids'') :
      Clause.LeadAlike (.each t i :: cs) (.each t' i' :: cs') (ids ++ ids' ++ ids'')
  | only {c c' : Expr} {cs cs' : List (Clause Expr)} {ids ids' : List Nat}
      (condition : Expr.Alike c c' ids) (rest : Clause.LeadAlike cs cs' ids') :
      Clause.LeadAlike (.only c :: cs) (.only c' :: cs') (ids ++ ids')

end

/-- The parameters have the same names and their defaults are alike. -/
inductive Parameter.AllAlike : List Parameter → List Parameter → List Nat → Prop where
  | nil : Parameter.AllAlike [] [] []
  | cons {p p' : Parameter} {ps ps' : List Parameter} {ids ids' : List Nat}
      (name : p.name = p'.name) (default : Expr.AllAlike p.default.toList p'.default.toList ids)
      (rest : Parameter.AllAlike ps ps' ids') :
      Parameter.AllAlike (p :: ps) (p' :: ps') (ids ++ ids')

/-- Whether the statement binds no name in the block in which it stands. -/
def Stmt.isInert (s : Stmt) : Bool :=
  match s.form with
  | .expression _ | .augment _ _ _ | .define _ _ _ | .return_ _ | .pass | .break_
  | .continue_ => true
  | .assign _ _ | .branch _ _ _ | .loop _ _ _ => false

mutual

/-- The statements are the same but for what is inside comprehensions and functions, and for inert
statements in the blocks within them. A function that is changed keeps its defaults alone. -/
inductive Stmt.Alike : Stmt → Stmt → List Nat → Prop where
  | expression {span span' : Span} {e e' : Expr} {ids : List Nat} (value : Expr.Alike e e' ids) :
      Stmt.Alike ⟨span, .expression e⟩ ⟨span', .expression e'⟩ ids
  | assign {span span' : Span} {t t' e e' : Expr} {ids ids' : List Nat}
      (target : Expr.Alike t t' ids) (value : Expr.Alike e e' ids') :
      Stmt.Alike ⟨span, .assign t e⟩ ⟨span', .assign t' e'⟩ (ids ++ ids')
  | augment {span span' : Span} {t t' e e' : Expr} {ids ids' : List Nat} (op : BinaryOp)
      (target : Expr.Alike t t' ids) (value : Expr.Alike e e' ids') :
      Stmt.Alike ⟨span, .augment op t e⟩ ⟨span', .augment op t' e'⟩ (ids ++ ids')
  | return_ {span span' : Span} {o o' : Option Expr} {ids : List Nat}
      (value : Expr.AllAlike o.toList o'.toList ids) :
      Stmt.Alike ⟨span, .return_ o⟩ ⟨span', .return_ o'⟩ ids
  | branch {span span' : Span} {c c' : Expr} {ss ss' os os' : List Stmt}
      {ids ids' ids'' : List Nat} (condition : Expr.Alike c c' ids)
      (body : Stmt.BlockAlike ss ss' ids') (other : Stmt.BlockAlike os os' ids'') :
      Stmt.Alike ⟨span, .branch c ss os⟩ ⟨span', .branch c' ss' os'⟩ (ids ++ (ids' ++ ids''))
  | loop {span span' : Span} {t t' i i' : Expr} {ss ss' : List Stmt} {ids ids' ids'' : List Nat}
      (target : Expr.Alike t t' ids) (iterable : Expr.Alike i i' ids')
      (body : Stmt.BlockAlike ss ss' ids'') :
      Stmt.Alike ⟨span, .loop t i ss⟩ ⟨span', .loop t' i' ss'⟩ (ids ++ (ids' ++ ids''))
  | define {span span' : Span} {ps ps' : List Parameter} {ss ss' : List Stmt}
      {ids ids' : List Nat} (name : String) (parameters : Parameter.AllAlike ps ps' ids)
      (body : Stmt.BlockAlike ss ss' ids') :
      Stmt.Alike ⟨span, .define name ps ss⟩ ⟨span', .define name ps' ss'⟩ (ids ++ ids')
  | redefine {span span' : Span} {ps ps' : List Parameter} {ids : List Nat} (name : String)
      (body body' : List Stmt) (defaults : Expr.AllAlike (ps.filterMap Parameter.default)
        (ps'.filterMap Parameter.default) ids) :
      Stmt.Alike ⟨span, .define name ps body⟩ ⟨span', .define name ps' body'⟩ ids

/-- The statements are alike one by one, with inert statements removed and inserted. -/
inductive Stmt.BlockAlike : List Stmt → List Stmt → List Nat → Prop where
  | nil : Stmt.BlockAlike [] [] []
  | cons {s s' : Stmt} {ss ss' : List Stmt} {ids ids' : List Nat} (first : Stmt.Alike s s' ids)
      (rest : Stmt.BlockAlike ss ss' ids') : Stmt.BlockAlike (s :: ss) (s' :: ss') (ids ++ ids')
  | removed {s : Stmt} {ss ss' : List Stmt} {ids : List Nat} (inert : s.isInert = true)
      (rest : Stmt.BlockAlike ss ss' ids) : Stmt.BlockAlike (s :: ss) ss' ids
  | inserted {s : Stmt} {ss ss' : List Stmt} {ids : List Nat} (inert : s.isInert = true)
      (rest : Stmt.BlockAlike ss ss' ids) : Stmt.BlockAlike ss (s :: ss') ids

end

/-- An expression is alike itself, with all its nodes in common. -/
theorem Expr.alike_refl (e : Expr) : Expr.Alike e e (e.nodes.map Expr.id) := by
  have all (es : List Expr) (h : ∀ e ∈ es, Expr.Alike e e (e.nodes.map Expr.id)) :
      Expr.AllAlike es es ((es.flatMap nodes).map Expr.id) := by
    induction es with
    | nil => exact .nil
    | cons e es ih =>
      rw [List.flatMap_cons, List.map_append]
      exact .cons (h e (by simp)) (ih fun e he => h e (by simp [he]))
  induction e using Expr.inductionOnParts with
  | step e ih =>
    obtain ⟨id, span, shape⟩ := e
    rw [nodes_eq]
    exact .node rfl (all _ ih)

end BuildTyping
