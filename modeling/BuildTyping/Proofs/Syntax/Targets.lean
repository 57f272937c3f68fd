import BuildTyping.Syntax.Stmt

/-!
# Binding positions

The targets of a program: those of assignments, of loops, and of the loops of comprehensions. A
target binds the plain names that are reached from it through tuples and lists.
-/

namespace BuildTyping

namespace Expr

theorem asName?_eq_some_iff (e : Expr) (name : String) :
    e.asName? = some name ↔ e.shape = .name name := by
  obtain ⟨id, span, shape⟩ := e
  cases shape <;> simp [asName?]

mutual

/-- The plain names in a target, reached through tuples and lists alone. -/
def binders : Expr → List Expr
  | ⟨id, span, .name name⟩ => [⟨id, span, .name name⟩]
  | ⟨_, _, .tuple elements⟩ | ⟨_, _, .list elements⟩ => bindersIn elements
  | _ => []

def bindersIn : List Expr → List Expr
  | [] => []
  | e :: es => e.binders ++ bindersIn es

end

mutual

theorem shape_of_mem_binders {b : Expr} : {target : Expr} → b ∈ target.binders →
    ∃ name, b.shape = .name name
  | ⟨_, _, .name name⟩, h => ⟨name, by rw [List.mem_singleton.1 h]⟩
  | ⟨_, _, .tuple _⟩, h | ⟨_, _, .list _⟩, h => shape_of_mem_bindersIn h
  | ⟨_, _, .literal _⟩, h | ⟨_, _, .dict _⟩, h | ⟨_, _, .listComp _ _⟩, h
  | ⟨_, _, .dictComp _ _⟩, h | ⟨_, _, .call _ _⟩, h | ⟨_, _, .binary _ _ _⟩, h
  | ⟨_, _, .unary _ _⟩, h | ⟨_, _, .member _ _⟩, h | ⟨_, _, .index _ _⟩, h
  | ⟨_, _, .slice _ _ _ _⟩, h | ⟨_, _, .conditional _ _ _⟩, h => by simp [binders] at h

theorem shape_of_mem_bindersIn {b : Expr} : {targets : List Expr} → b ∈ bindersIn targets →
    ∃ name, b.shape = .name name
  | [], h => by simp [bindersIn] at h
  | _ :: _, h => (List.mem_append.1 h).elim shape_of_mem_binders shape_of_mem_bindersIn

end

/-- The names that a target binds. -/
def boundNames (target : Expr) : List String := target.binders.filterMap asName?

end Expr

namespace Clause

def target? {α : Type} : Clause α → Option α
  | each target _ => some target
  | only _ => none

end Clause

namespace Shape

/-- The targets of a comprehension. -/
def targets {α : Type} : Shape α → List α
  | listComp _ clauses | dictComp _ clauses => clauses.filterMap Clause.target?
  | _ => []

end Shape

namespace Form

/-- The target of an assignment or a loop. -/
def targets {σ : Type} : Form σ → List Expr
  | assign target _ | loop target _ _ => [target]
  | _ => []

end Form

namespace Stmt

/-- The statement and all statements within it, each before its bodies. -/
def nested (s : Stmt) : List Stmt :=
  s :: s.form.bodies.attach.flatMap fun ⟨inner, h⟩ =>
    have := sizeOf_lt_of_mem_bodies h
    inner.nested
  termination_by sizeOf s

theorem nested_eq (s : Stmt) : s.nested = s :: s.form.bodies.flatMap nested := by
  rw [nested, List.flatMap_subtype (g := nested) (fun _ _ => rfl), List.unattach_attach]

end Stmt

namespace Program

def stmts (p : Program) : List Stmt := p.body.flatMap Stmt.nested

/-- All targets of a program, those of its statements and those of its comprehensions. -/
def targets (p : Program) : List Expr :=
  p.stmts.flatMap (fun s => s.form.targets) ++ p.nodes.flatMap fun e => e.shape.targets

end Program

end BuildTyping
