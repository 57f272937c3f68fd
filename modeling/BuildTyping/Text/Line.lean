import BuildTyping.Text.Bytes

/-!
# Lines and places in a text

A line reaches up to and including its newline; only the last line may lack one.
-/

namespace BuildTyping

def lines : List Char → List (List Char)
  | [] => []
  | c :: cs =>
    if c = '\n' then [c] :: lines cs
    else match lines cs with
      | [] => [[c]]
      | line :: rest => (c :: line) :: rest

@[simp] theorem lines_flatten (cs : List Char) : (lines cs).flatten = cs := by
  induction cs with
  | nil => rfl
  | cons c cs ih =>
    rw [lines]
    split
    · simp [ih]
    · split <;> rename_i h <;> simp_all

/-- A byte of a text by its line: the number of the line from 1, the line, the bytes before. -/
structure Place where
  number : Nat
  line : List Char
  column : Nat
  deriving DecidableEq, Repr

/-- The end of a text lies on its last line, or on an empty line after the last newline. -/
def placeFrom (number : Nat) : List (List Char) → Nat → Option Place
  | [], position => if position = 0 then some ⟨number, [], 0⟩ else none
  | line :: rest, position =>
    if position < byteLength line ∨ (position = byteLength line ∧ line.getLast? ≠ some '\n') then
      some ⟨number, line, position⟩
    else placeFrom (number + 1) rest (position - byteLength line)

def place? (source : List Char) (position : Nat) : Option Place :=
  placeFrom 1 (lines source) position

end BuildTyping
