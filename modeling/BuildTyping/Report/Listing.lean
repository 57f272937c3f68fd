import BuildTyping.Report.Mark
import BuildTyping.Text.Blank
import BuildTyping.Text.Line

/-!
# The listing of typed expressions
-/

namespace BuildTyping

structure Listed where
  id : Nat
  /-- The line of the first character, from 1. -/
  line : Nat
  /-- The column of the first character, from 1 and in characters. -/
  column : Nat
  ty : Ty
  /-- The text of the expression with its white space collapsed. -/
  snippet : List Char
  deriving DecidableEq, Repr

namespace Listed

def text (x : Listed) : String :=
  toString x.line ++ ":" ++ toString x.column ++ ": " ++ x.ty.name ++ ": "
    ++ String.ofList x.snippet

/-- The entry of an expression in a source with these lines. An expression that does not lie
within the source has no text, and one that starts beyond its end is on line 0. -/
def ofMark (source : List Char) (ls : List (List Char)) (m : Mark) : Listed :=
  let start := m.expr.span.start.offset
  let stop := m.expr.span.stop.offset
  let place := (placeFrom 1 ls start).getD ⟨0, [], 0⟩
  let before := match slice? 0 place.column place.line with
    | some prior => prior.length
    | none => place.column
  let snippet := collapseBlanks ((slice? start stop source).getD [])
  ⟨m.expr.id, place.number, before + 1, m.ty, snippet⟩

end Listed

/-- By the start, then the longer first, then the greater id. -/
def Mark.precedes (a b : Mark) : Bool :=
  let s := a.expr.span
  let t := b.expr.span
  if s.start.offset ≠ t.start.offset then s.start.offset < t.start.offset
  else if s.stop.offset ≠ t.stop.offset then t.stop.offset < s.stop.offset
  else b.expr.id ≤ a.expr.id

/-- Every typed expression by its place in the source, the outer ones first. -/
def listing (source : List Char) (p : Program) (types : TypeMap) : List Listed :=
  ((p.marks types).mergeSort Mark.precedes).map (Listed.ofMark source (lines source))

end BuildTyping
