import BuildTyping.Number.Binary64
import BuildTyping.Span
import BuildTyping.Syntax.Operator

/-!
# Expressions

A shape says how an expression is put together from its parts, whatever the parts are. An
expression is a shape of expressions with an id and a span.
-/

namespace BuildTyping

inductive Literal where
  | string (value : String)
  | int (value : Int)
  | float (value : Binary64)
  | bool (value : Bool)
  | none
  deriving DecidableEq, Repr

/-- An entry `key: value` of a dictionary. -/
structure Entry (α : Type) where
  key : α
  value : α
  deriving DecidableEq, Repr

/-- A clause `for target in iterable` or `if condition` of a comprehension. -/
inductive Clause (α : Type) where
  | each (target iterable : α)
  | only (condition : α)
  deriving DecidableEq, Repr

/-- The name of a keyword argument is a label and no variable. -/
inductive Argument (α : Type) where
  | positional (value : α)
  | keyword (name : String) (nameSpan : Span) (value : α)
  | unpack (value : α)
  | unpackKeywords (value : α)
  deriving DecidableEq, Repr

inductive Shape (α : Type) where
  | literal (value : Literal)
  | name (name : String)
  | list (elements : List α)
  | tuple (elements : List α)
  | dict (entries : List (Entry α))
  | listComp (element : α) (clauses : List (Clause α))
  | dictComp (entry : Entry α) (clauses : List (Clause α))
  | call (callee : α) (arguments : List (Argument α))
  | binary (op : BinaryOp) (left right : α)
  | unary (op : UnaryOp) (operand : α)
  | member (object : α) (name : String)
  | index (object key : α)
  | slice (object : α) (lower upper step : Option α)
  | conditional (whenTrue condition whenFalse : α)
  deriving DecidableEq, Repr

structure Expr where
  id : Nat
  span : Span
  shape : Shape Expr
  deriving Repr

namespace Entry

def parts {α : Type} (entry : Entry α) : List α := [entry.key, entry.value]

end Entry

namespace Clause

def parts {α : Type} : Clause α → List α
  | each target iterable => [target, iterable]
  | only condition => [condition]

end Clause

namespace Argument

def value {α : Type} : Argument α → α
  | positional v | keyword _ _ v | unpack v | unpackKeywords v => v

end Argument

namespace Shape

/-- The parts in the order in which they stand in the source. -/
def parts {α : Type} : Shape α → List α
  | literal _ | name _ => []
  | list elements | tuple elements => elements
  | dict entries => entries.flatMap Entry.parts
  | listComp element clauses => element :: clauses.flatMap Clause.parts
  | dictComp entry clauses => entry.parts ++ clauses.flatMap Clause.parts
  | call callee arguments => callee :: arguments.map Argument.value
  | binary _ left right => [left, right]
  | unary _ operand => [operand]
  | member object _ => [object]
  | index object key => [object, key]
  | slice object lower upper step =>
    object :: (lower.toList ++ upper.toList ++ step.toList)
  | conditional whenTrue condition whenFalse => [whenTrue, condition, whenFalse]

end Shape

namespace Expr

/-- The name, if the expression is nothing but a name. -/
def asName? (e : Expr) : Option String :=
  match e.shape with
  | .name name => some name
  | _ => none

theorem sizeOf_lt_of_mem_parts {e part : Expr} (h : part ∈ e.shape.parts) :
    sizeOf part < sizeOf e := by
  obtain ⟨id, span, shape⟩ := e
  suffices hs : sizeOf part < sizeOf shape by simp only [mk.sizeOf_spec]; omega
  cases shape <;> simp only [Shape.parts, List.mem_cons, List.mem_flatMap, List.mem_map,
    List.mem_append, Option.mem_toList, List.not_mem_nil, or_false, Entry.parts] at h
  case list elements =>
    have := List.sizeOf_lt_of_mem h
    simp only [Shape.list.sizeOf_spec]; omega
  case tuple elements =>
    have := List.sizeOf_lt_of_mem h
    simp only [Shape.tuple.sizeOf_spec]; omega
  case dict entries =>
    obtain ⟨⟨key, value⟩, he, h⟩ := h
    have := List.sizeOf_lt_of_mem he
    rcases h with rfl | rfl <;> simp at this ⊢ <;> omega
  case listComp element clauses =>
    rcases h with rfl | ⟨clause, hc, h⟩
    · simp only [Shape.listComp.sizeOf_spec]; omega
    · have := List.sizeOf_lt_of_mem hc
      cases clause <;> simp only [Clause.parts, List.mem_cons, List.not_mem_nil, or_false] at h
      · rcases h with rfl | rfl <;> simp at this ⊢ <;> omega
      · subst h; simp at this ⊢; omega
  case dictComp entry clauses =>
    rcases h with h | ⟨clause, hc, h⟩
    · obtain ⟨key, value⟩ := entry
      rcases h with rfl | rfl <;> simp <;> omega
    · have := List.sizeOf_lt_of_mem hc
      cases clause <;> simp only [Clause.parts, List.mem_cons, List.not_mem_nil, or_false] at h
      · rcases h with rfl | rfl <;> simp at this ⊢ <;> omega
      · subst h; simp at this ⊢; omega
  case call callee arguments =>
    rcases h with rfl | ⟨argument, ha, rfl⟩
    · simp only [Shape.call.sizeOf_spec]; omega
    · have := List.sizeOf_lt_of_mem ha
      cases argument <;> simp [Argument.value] at this ⊢ <;> omega
  case binary => rcases h with rfl | rfl <;> (simp only [Shape.binary.sizeOf_spec]; omega)
  case unary => subst h; simp only [Shape.unary.sizeOf_spec]; omega
  case member => subst h; simp only [Shape.member.sizeOf_spec]; omega
  case index => rcases h with rfl | rfl <;> (simp only [Shape.index.sizeOf_spec]; omega)
  case slice =>
    rcases h with rfl | h
    · simp only [Shape.slice.sizeOf_spec]; omega
    · rcases h with (rfl | rfl) | rfl <;>
        (simp only [Shape.slice.sizeOf_spec, Option.some.sizeOf_spec]; omega)
  case conditional =>
    rcases h with rfl | rfl | rfl <;> (simp only [Shape.conditional.sizeOf_spec]; omega)

/-- What holds of an expression whenever it holds of its parts holds of all expressions. -/
theorem inductionOnParts {P : Expr → Prop} (step : ∀ e, (∀ part ∈ e.shape.parts, P part) → P e)
    (e : Expr) : P e :=
  step e fun part h =>
    have := sizeOf_lt_of_mem_parts h
    inductionOnParts step part
  termination_by sizeOf e

/-- The expression and all expressions within it, each before its parts. -/
def nodes (e : Expr) : List Expr :=
  e :: e.shape.parts.attach.flatMap fun ⟨part, h⟩ =>
    have := sizeOf_lt_of_mem_parts h
    part.nodes
  termination_by sizeOf e

theorem nodes_eq (e : Expr) : e.nodes = e :: e.shape.parts.flatMap nodes := by
  rw [nodes, List.flatMap_subtype (g := nodes) (fun _ _ => rfl), List.unattach_attach]

end Expr

end BuildTyping
