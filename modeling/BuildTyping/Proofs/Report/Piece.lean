import BuildTyping.Proofs.Text.Slice
import BuildTyping.Report.Annotated
import Mathlib.Data.List.Nodup

/-!
# Pieces of an annotated source

An annotated source is put together from texts of the source and from inserted texts. Where the
pieces spell out the source from an offset on, they are what the insertions alone produce.
-/

namespace BuildTyping

/-- A text copied from the source, or an inserted one. -/
inductive Piece where
  | copied (text : List Char)
  | inserted (insertion : Insertion)
  deriving DecidableEq, Repr

namespace Piece

def text : Piece → List Char
  | copied text => text
  | inserted i => i.text.toList

/-- What is left of the piece when the insertions are deleted. -/
def kept : Piece → List Char
  | copied text => text
  | inserted _ => []

def insertion? : Piece → Option Insertion
  | copied _ => none
  | inserted i => some i

/-- The copied pieces are adjacent slices of the source, and each insertion belongs where it
stands. -/
inductive Spells (source : List Char) : Nat → List Piece → Nat → Prop where
  | nil {lo : Nat} (boundary : isBoundary lo source = true) : Spells source lo [] lo
  | copied {lo mid hi : Nat} {text : List Char} {ps : List Piece}
      (slice : slice? lo mid source = some text) (rest : Spells source mid ps hi) :
      Spells source lo (copied text :: ps) hi
  | inserted {hi : Nat} {i : Insertion} {ps : List Piece} (rest : Spells source i.offset ps hi) :
      Spells source i.offset (inserted i :: ps) hi

/-- Each opener has its closer behind it, and what stands between is nested too. -/
inductive Nested : List Piece → Prop where
  | nil : Nested []
  | copied (text : List Char) {ps : List Piece} (rest : Nested ps) : Nested (copied text :: ps)
  | pair (m : Mark) {inner ps : List Piece} (within : Nested inner) (rest : Nested ps) :
      Nested (inserted (.opener m) :: (inner ++ inserted (.closer m) :: ps))

variable {source : List Char} {lo mid hi : Nat} {ps qs : List Piece}

theorem Nested.append (h : Nested ps) (h' : Nested qs) : Nested (ps ++ qs) := by
  induction h with
  | nil => exact h'
  | copied text _ ih => exact .copied text ih
  | pair m within _ _ ih => simpa using Nested.pair m within ih

namespace Spells

theorem append (h : Spells source lo ps mid) (h' : Spells source mid qs hi) :
    Spells source lo (ps ++ qs) hi := by
  induction h with
  | nil => exact h'
  | copied slice _ ih => exact .copied slice (ih h')
  | inserted _ ih => exact .inserted (ih h')

/-- Without the insertions the pieces are the text of the source between the ends. -/
theorem slice?_eq (h : Spells source lo ps hi) :
    slice? lo hi source = some (ps.flatMap kept) := by
  induction h with
  | nil boundary => exact slice?_refl boundary
  | copied slice _ ih => exact slice?_append slice ih
  | inserted _ ih => exact ih

/-- Inserting the pieces one after the other spells out all of them, whatever was still to be
copied before. -/
theorem splice_eq (h : Spells source lo ps (byteLength source)) {position : Nat}
    {before : List Char} (hb : slice? position lo source = some before) :
    splice position (dropBytes position source) (ps.filterMap insertion?)
      = before ++ ps.flatMap text := by
  generalize hend : byteLength source = hi at h
  induction h generalizing position before with
  | nil boundary =>
    subst hend
    simp [splice, slice?_byteLength hb]
  | copied slice _ ih =>
    simp only [List.filterMap_cons, insertion?]
    rw [ih (slice?_append hb slice) hend]
    simp [text]
  | @inserted hi i ps rest ih =>
    have hlen := length_of_slice? hb
    have hgap : i.offset - position = byteLength before := by omega
    simp only [List.filterMap_cons, insertion?, splice]
    rw [hgap, dropBytes_of_slice? hb, takeBytes_append, dropBytes_append, hlen,
      ih (slice?_refl (isBoundary_of_slice? hb).2) hend]
    simp [text]

/-- Every text between two neighbouring offsets of the insertions is a slice. -/
theorem slices (h : Spells source lo ps hi) {position : Nat} {before : List Char}
    (hb : slice? position lo source = some before) :
    (position :: ((ps.filterMap insertion?).map Insertion.offset ++ [hi])).IsChain
      fun start stop => (slice? start stop source).isSome = true := by
  induction h generalizing position before with
  | nil boundary => simp [hb]
  | copied slice _ ih =>
    simp only [List.filterMap_cons, insertion?]
    exact ih (slice?_append hb slice)
  | @inserted hi i ps rest ih =>
    simp only [List.filterMap_cons, insertion?, List.map_cons, List.cons_append]
    exact .cons_cons (by simp [hb]) (ih (slice?_refl (isBoundary_of_slice? hb).2))

end Spells

end Piece

end BuildTyping
