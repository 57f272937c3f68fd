import BuildTyping.Number.Integer

/-!
# Integers in decimal

A natural number of 63 bits is read back from its decimal text.
-/

namespace BuildTyping

theorem digitValue?_of_isDigit {c : Char} (h : c.isDigit = true) :
    digitValue? 10 c = some (c.toNat - '0'.toNat) := by
  have hc : c.toNat ≤ 57 := by
    simp only [Char.isDigit, Bool.and_eq_true, decide_eq_true_eq] at h
    exact UInt32.le_iff_toNat_le.1 h.2
  have hlt : c.toNat - 48 < 10 := by omega
  simp [digitValue?, h, hlt]

/-- Digits with their values are read as the number with these digits. -/
theorem readNatural?_of_digits {radix : Nat} {digit : Char → Nat} {cs : List Char} (ne : cs ≠ [])
    (h : ∀ c ∈ cs, digitValue? radix c = some (digit c)) :
    readNatural? radix cs = some (ofDigits radix (cs.map digit)) := by
  have hvalues : cs.mapM (digitValue? radix) = some (cs.map digit) := by
    clear ne
    induction cs with
    | nil => rfl
    | cons c cs ih =>
      rw [List.mapM_cons, h c (by simp), ih fun d hd => h d (by simp [hd])]
      rfl
  rw [readNatural?, hvalues, Option.map_some, if_neg (by simpa using ne)]

theorem readNatural?_toDigits (n : Nat) : readNatural? 10 (Nat.toDigits 10 n) = some n := by
  have hdigit : ∀ c ∈ Nat.toDigits 10 n, c.isDigit = true := fun c hc =>
    Nat.isDigit_of_mem_toDigits (by omega) (by omega) hc
  have hvalue : ofDigits 10 ((Nat.toDigits 10 n).map fun c => c.toNat - '0'.toNat) = n := by
    rw [ofDigits, List.foldl_map]
    exact Nat.ofDigitChars_toDigits (by omega) (by omega)
  rw [readNatural?_of_digits (by simp) fun c hc => digitValue?_of_isDigit (hdigit c hc), hvalue]

namespace Integer

theorem readSigned?_of_unsigned (radix : Nat) {cs : List Char}
    (h : ∀ c ∈ cs, c ≠ '+' ∧ c ≠ '-') :
    readSigned? radix cs = (readNatural? radix cs).map Int.ofNat := by
  unfold readSigned?
  split
  · exact absurd rfl (h '-' (by simp)).2
  · exact absurd rfl (h '+' (by simp)).1
  · rfl

/-- Digits alone have no sign. -/
theorem readSigned?_of_isDigit {cs : List Char} (h : ∀ c ∈ cs, c.isDigit = true) :
    readSigned? 10 cs = (readNatural? 10 cs).map Int.ofNat := by
  refine readSigned?_of_unsigned 10 fun c hc => ⟨?_, ?_⟩ <;>
  · rintro rfl
    exact absurd (h _ hc) (by decide)

/-- Digits alone have no mark of another radix. -/
theorem readAny?_of_isDigit {cs : List Char} (h : ∀ c ∈ cs, c.isDigit = true) :
    readAny? cs = (readNatural? 10 cs).map Int.ofNat := by
  rw [← readSigned?_of_isDigit h]
  unfold readAny?
  split
  · rename_i m cs'
    have hm := h m (by simp)
    have hx : ¬(m = 'x' ∨ m = 'X') := by
      rintro (rfl | rfl) <;> simp at hm
    have ho : ¬(m = 'o' ∨ m = 'O') := by
      rintro (rfl | rfl) <;> simp at hm
    rw [if_neg hx, if_neg ho]
  · rfl

theorem read?_toString {n : Int} (h : 0 ≤ n) (hn : n < (Nat.pow 2 63 : Int)) :
    read? (toString n).toList = some n := by
  obtain ⟨m, rfl⟩ := Int.eq_ofNat_of_zero_le h
  have htext : (toString (m : Int)).toList = Nat.toDigits 10 m := by
    rw [Int.toString_eq_repr]
    exact Nat.toList_repr
  have hword : IsWord (m : Int) := ⟨by omega, hn⟩
  rw [htext, read?, readAny?_of_isDigit fun c hc =>
    Nat.isDigit_of_mem_toDigits (by omega) (by omega) hc, readNatural?_toDigits]
  simp [hword]

end Integer

end BuildTyping
