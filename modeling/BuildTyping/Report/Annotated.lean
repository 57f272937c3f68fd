import BuildTyping.Report.Mark
import BuildTyping.Text.Bytes

/-!
# The annotated source

The source with every typed expression wrapped as `type:<text>`. The wrappers are pieces of text
inserted at the ends of the expressions, in an order that nests them like the expressions.
-/

namespace BuildTyping

/-- A piece of text to insert, with what decides its place among the pieces at the same offset. -/
structure Insertion where
  offset : Nat
  opens : Bool
  /-- The other end of the expression. -/
  opposite : Nat
  id : Nat
  text : String
  deriving DecidableEq, Repr

namespace Insertion

def opener (m : Mark) : Insertion :=
  ⟨m.expr.span.start.offset, true, m.expr.span.stop.offset, m.expr.id, m.ty.name ++ ":<"⟩

def closer (m : Mark) : Insertion :=
  ⟨m.expr.span.stop.offset, false, m.expr.span.start.offset, m.expr.id, ">"⟩

/-- At one offset all closers come first. Inner expressions close first and outer ones open
first. The ids decide between equal spans, as a part has a smaller id than the whole. -/
def precedes (a b : Insertion) : Bool :=
  if a.offset ≠ b.offset then a.offset < b.offset
  else if a.opens ≠ b.opens then b.opens
  else if a.opposite ≠ b.opposite then b.opposite < a.opposite
  else if a.opens then b.id ≤ a.id else a.id ≤ b.id

end Insertion

/-- Inserts pieces in the order of their offsets into the text from `position` on. -/
def splice (position : Nat) (rest : List Char) : List Insertion → List Char
  | [] => rest
  | piece :: pieces =>
    let gap := piece.offset - position
    takeBytes gap rest ++ piece.text.toList ++ splice (position + gap) (dropBytes gap rest) pieces

/-- The pieces that wrap the typed expressions, in order. -/
def insertions (p : Program) (types : TypeMap) : List Insertion :=
  ((p.marks types).flatMap fun m => [.closer m, .opener m]).mergeSort Insertion.precedes

def annotated (source : List Char) (p : Program) (types : TypeMap) : List Char :=
  splice 0 source (insertions p types)

end BuildTyping
