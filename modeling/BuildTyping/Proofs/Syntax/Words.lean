import BuildTyping.Grammar.Expression
import BuildTyping.Number.Shortest
import BuildTyping.Proofs.Syntax.Bare
import BuildTyping.Token.Basic

/-!
# Expressions as words

A word is what a token says wherever it stands. An expression is written as words with round
brackets around a part only where the part binds too loosely for its place.
-/

namespace BuildTyping

structure Word where
  kind : TokenKind
  text : String
  deriving DecidableEq, Repr

namespace Word

def opening (b : Bracket) : Word := ⟨.opening b, String.singleton b.opener⟩
def closing (b : Bracket) : Word := ⟨.closing b, String.singleton b.closer⟩
def sign (s : Sign) : Word := ⟨.sign s, s.text⟩
def keyword (k : Keyword) : Word := ⟨.keyword k, k.text⟩
def name (label : String) : Word := ⟨.identifier, label⟩

end Word

def Token.word (t : Token) : Word := ⟨t.kind, t.value⟩

def enclosed (b : Bracket) (ws : List Word) : List Word := .opening b :: (ws ++ [.closing b])

/-- Commas between the items. -/
def separated : List (List Word) → List Word
  | [] => []
  | ws :: wss => ws ++ wss.flatMap fun us => .sign .comma :: us

namespace Literal

/-- An integer is written in decimal. -/
def word : Literal → Word
  | string value => ⟨.string, value⟩
  | int value => ⟨.int, toString value⟩
  | float value => ⟨.float, value.text⟩
  | bool true => .keyword .true_
  | bool false => .keyword .false_
  | none => .keyword .none_

end Literal

namespace BinaryOp

def precedence : BinaryOp → Precedence
  | or_ => .disjunction
  | and_ => .conjunction
  | equal | notEqual | less | lessEqual | greater | greaterEqual | in_ | notIn => .comparison
  | bitOr => .bitOr
  | bitXor => .bitXor
  | bitAnd => .bitAnd
  | shiftLeft | shiftRight => .shift
  | add | subtract => .additive
  | multiply | divide | floorDivide | modulo => .multiplicative
  | power => .power

/-- The sign or the keyword that writes the operator. Only `not in` takes another word. -/
def word : BinaryOp → Word
  | add => .sign .plus
  | subtract => .sign .minus
  | multiply => .sign .star
  | divide => .sign .slash
  | floorDivide => .sign .slashSlash
  | modulo => .sign .percent
  | power => .sign .starStar
  | bitOr => .sign .pipe
  | bitAnd => .sign .ampersand
  | bitXor => .sign .caret
  | shiftLeft => .sign .shiftLeft
  | shiftRight => .sign .shiftRight
  | equal => .sign .equal
  | notEqual => .sign .notEqual
  | less => .sign .less
  | lessEqual => .sign .lessEqual
  | greater => .sign .greater
  | greaterEqual => .sign .greaterEqual
  | in_ => .keyword .in_
  | notIn => .keyword .not_
  | and_ => .keyword .and_
  | or_ => .keyword .or_

def words (op : BinaryOp) : List Word :=
  op.word :: if op = notIn then [.keyword .in_] else []

end BinaryOp

namespace UnaryOp

def word : UnaryOp → Word
  | negate => .sign .minus
  | plus => .sign .plus
  | invert => .sign .tilde
  | not_ => .keyword .not_

end UnaryOp

/-- The words of a part, with how tightly its loosest operator outside brackets binds. -/
structure Phrase where
  level : Precedence
  words : List Word

namespace Phrase

/-- The words where the part may bind as loosely as `p`. -/
def atLeast (p : Precedence) (part : Phrase) : List Word :=
  if p ≤ part.level then part.words else enclosed .round part.words

/-- The words where the part must bind more tightly than `p`. -/
def above (p : Precedence) (part : Phrase) : List Word :=
  if p < part.level then part.words else enclosed .round part.words

end Phrase

namespace Entry

def words (entry : Entry Phrase) : List Word :=
  entry.key.words ++ .sign .colon :: entry.value.words

end Entry

namespace Clause

def words : Clause Phrase → List Word
  | each target iterable =>
    .keyword .for_ :: (target.above .comparison ++ .keyword .in_ :: iterable.above .conditional)
  | only condition => .keyword .if_ :: condition.above .conditional

end Clause

namespace Argument

def words : Argument Phrase → List Word
  | positional value => value.words
  | keyword name _ value => .name name :: .sign .assign :: value.words
  | unpack value => .sign .star :: value.words
  | unpackKeywords value => .sign .starStar :: value.words

end Argument

namespace Shape

def level {α : Type} : Shape α → Precedence
  | conditional .. => .conditional
  | binary op _ _ => op.precedence
  | unary op _ => Parse.operandPrecedence op
  | call .. | member .. | index .. | slice .. => .call
  | _ => .primary

/-- Equal operators group leftwards, but powers group rightwards. A tuple always has its brackets,
and of two colons in a slice the second stands only before a step. -/
def words : Shape Phrase → List Word
  | literal value => [value.word]
  | name label => [.name label]
  | list elements => enclosed .square (separated (elements.map Phrase.words))
  | tuple [element] => enclosed .round (element.words ++ [.sign .comma])
  | tuple elements => enclosed .round (separated (elements.map Phrase.words))
  | dict entries => enclosed .curly (separated (entries.map Entry.words))
  | listComp element clauses => enclosed .square (element.words ++ clauses.flatMap Clause.words)
  | dictComp entry clauses => enclosed .curly (entry.words ++ clauses.flatMap Clause.words)
  | call callee arguments =>
    callee.atLeast .call ++ enclosed .round (separated (arguments.map Argument.words))
  | binary .power left right =>
    left.above .power ++ BinaryOp.power.words ++ right.atLeast .unary
  | binary op left right =>
    left.atLeast op.precedence ++ op.words ++ right.above op.precedence
  | unary op operand => op.word :: operand.atLeast (Parse.operandPrecedence op)
  | member object label => object.atLeast .call ++ [.sign .dot, .name label]
  | index object key => object.atLeast .call ++ enclosed .square key.words
  | slice object lower upper step =>
    object.atLeast .call ++ enclosed .square (lower.elim [] Phrase.words ++ .sign .colon ::
      (upper.elim [] Phrase.words ++ step.elim [] fun part => .sign .colon :: part.words))
  | conditional whenTrue condition whenFalse =>
    whenTrue.above .conditional ++ .keyword .if_ :: (condition.above .conditional ++
      .keyword .else_ :: whenFalse.words)

theorem words_binary {op : BinaryOp} (h : op ≠ .power) (left right : Phrase) :
    (binary op left right).words =
      left.atLeast op.precedence ++ op.words ++ right.above op.precedence := by
  rw [words]
  exact h

end Shape

namespace Expr

def phrase (e : Expr) : Phrase :=
  ⟨e.shape.level, (e.shape.attach.map fun ⟨part, h⟩ =>
    have := sizeOf_lt_of_mem_parts h
    part.phrase).words⟩
  termination_by sizeOf e

theorem phrase_eq (e : Expr) : e.phrase = ⟨e.shape.level, (e.shape.map phrase).words⟩ := by
  rw [phrase, ← Shape.attach_map phrase]

def level (e : Expr) : Precedence := e.shape.level

/-- The words of the expression in brackets of its own or where it may bind as it likes. -/
def words (e : Expr) : List Word := e.phrase.words

end Expr

end BuildTyping
