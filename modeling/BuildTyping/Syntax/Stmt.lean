import BuildTyping.Syntax.Expr

/-!
# Statements and programs
-/

namespace BuildTyping

inductive ParameterKind where
  /-- A parameter `name` or `name = default`. -/
  | normal
  /-- A parameter `*name`. -/
  | varArgs
  /-- A parameter `**name`. -/
  | kwArgs
  deriving DecidableEq, Repr

structure Parameter where
  name : String
  kind : ParameterKind
  default : Option Expr
  span : Span
  deriving Repr

/-- What a statement is made of, whatever the statements within it are. An `elif` is a branch
alone in the other body. -/
inductive Form (σ : Type) where
  | expression (value : Expr)
  | assign (target value : Expr)
  | augment (op : BinaryOp) (target value : Expr)
  | define (name : String) (parameters : List Parameter) (body : List σ)
  | return_ (value : Option Expr)
  | branch (condition : Expr) (body other : List σ)
  | loop (target iterable : Expr) (body : List σ)
  | pass
  | break_
  | continue_
  deriving Repr

structure Stmt where
  span : Span
  form : Form Stmt
  deriving Repr

namespace Form

/-- The expressions that belong to no statement within this one. -/
def exprs {σ : Type} : Form σ → List Expr
  | expression value => [value]
  | assign target value | augment _ target value => [target, value]
  | define _ parameters _ => parameters.filterMap Parameter.default
  | return_ value => value.toList
  | branch condition _ _ => [condition]
  | loop target iterable _ => [target, iterable]
  | pass | break_ | continue_ => []

def bodies {σ : Type} : Form σ → List σ
  | define _ _ body | loop _ _ body => body
  | branch _ body other => body ++ other
  | _ => []

end Form

namespace Stmt

theorem sizeOf_lt_of_mem_bodies {s inner : Stmt} (h : inner ∈ s.form.bodies) :
    sizeOf inner < sizeOf s := by
  obtain ⟨span, form⟩ := s
  suffices hs : sizeOf inner < sizeOf form by simp only [mk.sizeOf_spec]; omega
  cases form <;> simp only [Form.bodies, List.mem_append, List.not_mem_nil] at h
  case define => have := List.sizeOf_lt_of_mem h; simp; omega
  case branch => rcases h with h | h <;> have := List.sizeOf_lt_of_mem h <;> simp <;> omega
  case loop => have := List.sizeOf_lt_of_mem h; simp; omega

/-- What holds of a statement whenever it holds of those within it holds of all statements. -/
theorem inductionOnBodies {P : Stmt → Prop} (step : ∀ s, (∀ inner ∈ s.form.bodies, P inner) → P s)
    (s : Stmt) : P s :=
  step s fun inner h =>
    have := sizeOf_lt_of_mem_bodies h
    inductionOnBodies step inner
  termination_by sizeOf s

/-- The outermost expressions of the statement and of the statements within it, in order. -/
def roots (s : Stmt) : List Expr :=
  s.form.exprs ++ s.form.bodies.attach.flatMap fun ⟨inner, h⟩ =>
    have := sizeOf_lt_of_mem_bodies h
    inner.roots
  termination_by sizeOf s

theorem roots_eq (s : Stmt) : s.roots = s.form.exprs ++ s.form.bodies.flatMap roots := by
  rw [roots, List.flatMap_subtype (g := roots) (fun _ _ => rfl), List.unattach_attach]

def nodes (s : Stmt) : List Expr := s.roots.flatMap Expr.nodes

end Stmt

/-- A whole source: its statements, and the position at which it ends. -/
structure Program where
  body : List Stmt
  stop : Position
  file : String
  deriving Repr

namespace Program

def roots (p : Program) : List Expr := p.body.flatMap Stmt.roots

/-- All expressions of the program, each before its parts and otherwise in order. -/
def nodes (p : Program) : List Expr := p.roots.flatMap Expr.nodes

end Program

end BuildTyping
