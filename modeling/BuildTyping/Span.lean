/-!
# Positions and spans

A position is a byte offset in a file, and a span is the stretch of a source that a token or a tree
came from. Offsets are kept as words of 32 bits, so that they tell the place in a source with less
than 4 GiB.
-/

namespace BuildTyping

structure Position where
  word : UInt32
  file : String
  deriving DecidableEq, Repr, Inhabited

namespace Position

/-- The position of an offset, of which the lowest 32 bits are kept. -/
def ofOffset (offset : Nat) (file : String) : Position := ⟨UInt32.ofNat offset, file⟩

def offset (p : Position) : Nat := p.word.toNat

@[simp] theorem file_ofOffset (offset : Nat) (file : String) : (ofOffset offset file).file = file :=
  rfl

@[simp] theorem ofOffset_offset (p : Position) : ofOffset p.offset p.file = p := by
  rw [ofOffset, offset, UInt32.ofNat_toNat]

theorem offset_lt (p : Position) : p.offset < UInt32.size := p.word.toNat_lt_size

theorem offset_ofOffset_le (offset : Nat) (file : String) :
    (ofOffset offset file).offset ≤ offset :=
  Nat.le_trans (Nat.le_of_eq UInt32.toNat_ofNat') (Nat.mod_le offset _)

theorem offset_ofOffset {offset : Nat} (h : offset < UInt32.size) (file : String) :
    (ofOffset offset file).offset = offset :=
  UInt32.toNat_ofNat_of_lt h

end Position

structure Span where
  start : Position
  stop : Position
  deriving DecidableEq, Repr, Inhabited

def Span.offsets (s : Span) : Nat × Nat := (s.start.offset, s.stop.offset)

end BuildTyping
