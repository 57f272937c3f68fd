import BuildTyping.Number.Integer
import BuildTyping.Proofs.Syntax.Words

/-!
# The yield of an expression

What an expression says from left to right: its literals and names, and the words of its operators
and clauses. Brackets, commas, colons and dots only give it its shape.
-/

namespace BuildTyping

/-- A literal counts by its value and not by how it is spelled. -/
inductive Item where
  | literal (value : Literal)
  | name (label : String)
  | word (kind : TokenKind)
  deriving DecidableEq, Repr

namespace TokenKind

def isPunctuation : TokenKind → Bool
  | .opening _ | .closing _ | .sign .comma | .sign .colon | .sign .dot => true
  | _ => false

/-- The kinds of the words between and before operands. -/
def isWord : TokenKind → Bool
  | .sign s => !(sign s).isPunctuation
  | .keyword .true_ | .keyword .false_ | .keyword .none_ => false
  | .keyword _ => true
  | _ => false

end TokenKind

namespace Token

/-- The literal that the token spells. -/
def literal? (t : Token) : Option Literal :=
  match t.kind with
  | .int => (Integer.read? t.value.toList).map .int
  | .float => (Binary64.read? t.value.toList).map .float
  | .string => some (.string t.value)
  | .keyword .true_ => some (.bool true)
  | .keyword .false_ => some (.bool false)
  | .keyword .none_ => some .none
  | _ => none

def item (t : Token) : Item :=
  match t.literal? with
  | some value => .literal value
  | none => if t.kind = .identifier then .name t.value else .word t.kind

/-- Punctuation says nothing, and any other token one thing. -/
def items (t : Token) : List Item := if t.kind.isPunctuation then [] else [t.item]

variable {t : Token} {kind : TokenKind}

theorem items_of_punctuation (hk : t.kind = kind) (h : kind.isPunctuation = true) :
    t.items = [] := by
  simp [items, hk, h]

theorem items_of_word (hk : t.kind = kind) (h : kind.isWord = true) :
    t.items = [.word kind] := by
  subst hk
  cases hk : t.kind with
  | keyword word => cases word <;> simp_all [items, item, literal?, TokenKind.isWord,
      TokenKind.isPunctuation]
  | _ => simp_all [items, item, literal?, TokenKind.isWord, TokenKind.isPunctuation]

theorem items_of_identifier (hk : t.kind = .identifier) : t.items = [.name t.value] := by
  simp [items, item, literal?, hk, TokenKind.isPunctuation]

theorem items_of_literal {value : Literal} (h : t.literal? = some value) :
    t.items = [.literal value] := by
  have hk : t.kind.isPunctuation = false := by
    unfold literal? at h
    split at h <;> simp_all [TokenKind.isPunctuation]
  simp [items, item, hk, h]

end Token

/-- What tokens say without their punctuation. -/
def items (ts : List Token) : List Item :=
  (ts.filter fun t => !t.kind.isPunctuation).map Token.item

@[simp] theorem items_nil : items [] = [] := rfl

@[simp] theorem items_cons (t : Token) (ts : List Token) :
    items (t :: ts) = t.items ++ items ts := by
  by_cases h : t.kind.isPunctuation = true <;> simp [items, Token.items, h]

@[simp] theorem items_append (ts us : List Token) : items (ts ++ us) = items ts ++ items us := by
  simp [items]

namespace BinaryOp

/-- Only `not in` takes two words. -/
def items (op : BinaryOp) : List Item := op.words.map fun w => .word w.kind

end BinaryOp

namespace Entry

def yield (entry : Entry (List Item)) : List Item := entry.key ++ entry.value

end Entry

namespace Clause

def yield : Clause (List Item) → List Item
  | each target iterable =>
    .word (.keyword .for_) :: target ++ .word (.keyword .in_) :: iterable
  | only condition => .word (.keyword .if_) :: condition

end Clause

namespace Argument

def yield : Argument (List Item) → List Item
  | positional value => value
  | keyword name _ value => .name name :: .word (.sign .assign) :: value
  | unpack value => .word (.sign .star) :: value
  | unpackKeywords value => .word (.sign .starStar) :: value

end Argument

namespace Shape

def yield : Shape (List Item) → List Item
  | literal value => [.literal value]
  | name label => [.name label]
  | list elements | tuple elements => elements.flatten
  | dict entries => entries.flatMap Entry.yield
  | listComp element clauses => element ++ clauses.flatMap Clause.yield
  | dictComp entry clauses => entry.yield ++ clauses.flatMap Clause.yield
  | call callee arguments => callee ++ arguments.flatMap Argument.yield
  | binary op left right => left ++ op.items ++ right
  | unary op operand => .word op.word.kind :: operand
  | member object label => object ++ [.name label]
  | index object key => object ++ key
  | slice object lower upper step =>
    object ++ (lower.getD [] ++ upper.getD [] ++ step.getD [])
  | conditional whenTrue condition whenFalse =>
    whenTrue ++ .word (.keyword .if_) :: condition ++ .word (.keyword .else_) :: whenFalse

end Shape

namespace Expr

/-- What the expression says, in order. -/
def yield (e : Expr) : List Item :=
  (e.shape.attach.map fun ⟨part, h⟩ =>
    have := sizeOf_lt_of_mem_parts h
    part.yield).yield
  termination_by sizeOf e

theorem yield_eq (e : Expr) : e.yield = (e.shape.map yield).yield := by
  rw [yield, ← Shape.attach_map yield]

theorem yield_mk (id : Nat) (span : Span) (shape : Shape Expr) :
    yield ⟨id, span, shape⟩ = (shape.map yield).yield := yield_eq _

end Expr

end BuildTyping
