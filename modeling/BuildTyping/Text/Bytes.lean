/-!
# Offsets in bytes

Text is a list of characters, and every offset into it counts the bytes of its UTF-8 encoding.
-/

namespace BuildTyping

/-- Length of the UTF-8 encoding. -/
def byteLength (cs : List Char) : Nat := cs.foldl (fun n c => n + c.utf8Size) 0

theorem foldl_utf8Size (n : Nat) (cs : List Char) :
    cs.foldl (fun n c => n + c.utf8Size) n = n + byteLength cs := by
  induction cs generalizing n with
  | nil => rfl
  | cons c cs ih =>
    simp only [byteLength, List.foldl_cons, Nat.zero_add] at *
    rw [ih, ih c.utf8Size, Nat.add_assoc]

@[simp] theorem byteLength_nil : byteLength [] = 0 := rfl
@[simp] theorem byteLength_cons (c : Char) (cs : List Char) :
    byteLength (c :: cs) = c.utf8Size + byteLength cs := by
  rw [byteLength, List.foldl_cons, foldl_utf8Size, Nat.zero_add]
@[simp] theorem byteLength_append (as bs : List Char) :
    byteLength (as ++ bs) = byteLength as + byteLength bs := by
  rw [byteLength, List.foldl_append, foldl_utf8Size]
  rfl

/-- A character met by the cut is dropped whole. -/
def dropBytes : Nat → List Char → List Char
  | _, [] => []
  | n, c :: cs => if n = 0 then c :: cs else dropBytes (n - c.utf8Size) cs

/-- A character met by the cut is kept whole. -/
def takeBytes : Nat → List Char → List Char
  | _, [] => []
  | n, c :: cs => if n = 0 then [] else c :: takeBytes (n - c.utf8Size) cs

/-- Whether byte `n` of the text begins a character or is its end. -/
def isBoundary : Nat → List Char → Bool
  | n, [] => n == 0
  | n, c :: cs => n == 0 || (c.utf8Size ≤ n && isBoundary (n - c.utf8Size) cs)

/-- The text of the bytes from `start` up to `stop`, if both are boundaries in this order. -/
def slice? (start stop : Nat) (cs : List Char) : Option (List Char) :=
  if start ≤ stop && isBoundary start cs && isBoundary stop cs then
    some (takeBytes (stop - start) (dropBytes start cs))
  else none

@[simp] theorem dropBytes_zero (cs : List Char) : dropBytes 0 cs = cs := by
  cases cs <;> simp [dropBytes]
@[simp] theorem takeBytes_zero (cs : List Char) : takeBytes 0 cs = [] := by
  cases cs <;> simp [takeBytes]
@[simp] theorem isBoundary_zero (cs : List Char) : isBoundary 0 cs = true := by
  cases cs <;> simp [isBoundary]

theorem takeBytes_append_dropBytes (n : Nat) (cs : List Char) :
    takeBytes n cs ++ dropBytes n cs = cs := by
  induction cs generalizing n with
  | nil => rfl
  | cons c cs ih => by_cases h : n = 0 <;> simp [takeBytes, dropBytes, h, ih]

@[simp] theorem dropBytes_append (as bs : List Char) :
    dropBytes (byteLength as) (as ++ bs) = bs := by
  induction as with
  | nil => simp
  | cons a as ih =>
    have : a.utf8Size ≠ 0 := by have := a.utf8Size_pos; omega
    simp [dropBytes, ih, this]

@[simp] theorem takeBytes_append (as bs : List Char) :
    takeBytes (byteLength as) (as ++ bs) = as := by
  induction as with
  | nil => simp
  | cons a as ih =>
    have : a.utf8Size ≠ 0 := by have := a.utf8Size_pos; omega
    simp [takeBytes, ih, this]

@[simp] theorem isBoundary_append (as bs : List Char) :
    isBoundary (byteLength as) (as ++ bs) = true := by
  induction as with
  | nil => simp
  | cons a as ih => simp [isBoundary, ih]

end BuildTyping
