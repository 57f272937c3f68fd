import BuildTyping.Proofs.Number.Decimal
import BuildTyping.Proofs.Token.Numeral
import Mathlib.Data.Nat.Digits.Defs

/-!
# The value of a whole number

The number that the digits of a whole number stand for, in the base that its mark tells. It is read
exactly, or refused if it is greater than the greatest integer of 64 bits.
-/

namespace BuildTyping

namespace Numeral

/-- The value of a digit, whatever its case. -/
def digit (c : Char) : Nat := "0123456789abcdef".toList.idxOf c.toLower

/-- The number that digits stand for, the most significant first. -/
def inBase (base : Nat) (digits : List Char) : Nat := Nat.ofDigits base (digits.reverse.map digit)

/-- The number that a whole number stands for: in base sixteen or eight behind its mark, and else
in base ten, with any zeros in front. -/
def value : List Char → Nat
  | '0' :: m :: digits =>
    if isHexMark m then inBase 16 digits
    else if isOctalMark m then inBase 8 digits
    else inBase 10 ('0' :: m :: digits)
  | digits => inBase 10 digits

variable {w digits : List Char} {c : Char}

/-- The digits of each base are read with their values. -/
theorem digitValue?_of_ascii : ∀ n < 128,
    (isHexDigit (Char.ofNat n) = true →
      digitValue? 16 (Char.ofNat n) = some (digit (Char.ofNat n))) ∧
    (isOctalDigit (Char.ofNat n) = true →
      digitValue? 8 (Char.ofNat n) = some (digit (Char.ofNat n))) ∧
    ((Char.ofNat n).isDigit = true →
      digitValue? 10 (Char.ofNat n) = some (digit (Char.ofNat n))) := by
  decide

theorem isAscii (h : isHexDigit c = true ∨ isOctalDigit c = true) : c.toNat < 128 := by
  simp only [isHexDigit, isOctalDigit, Char.isDigit, Bool.or_eq_true, Bool.and_eq_true,
    decide_eq_true_eq] at h
  rcases h with ((⟨-, h⟩ | ⟨-, h⟩) | ⟨-, h⟩) | ⟨-, h⟩ <;>
    exact Nat.lt_of_le_of_lt (UInt32.le_iff_toNat_le.1 h) (by decide)

theorem digitValue?_hex (h : isHexDigit c = true) : digitValue? 16 c = some (digit c) := by
  have hread := (digitValue?_of_ascii c.toNat (isAscii (.inl h))).1
  rw [Char.ofNat_toNat] at hread
  exact hread h

theorem digitValue?_octal (h : isOctalDigit c = true) : digitValue? 8 c = some (digit c) := by
  have hread := (digitValue?_of_ascii c.toNat (isAscii (.inr h))).2.1
  rw [Char.ofNat_toNat] at hread
  exact hread h

theorem digitValue?_decimal (h : c.isDigit = true) : digitValue? 10 c = some (digit c) := by
  have hhex : isHexDigit c = true := by simp [isHexDigit, h]
  have hread := (digitValue?_of_ascii c.toNat (isAscii (.inl hhex))).2.2
  rw [Char.ofNat_toNat] at hread
  exact hread h

theorem ofDigits_eq (base : Nat) (digits : List Nat) :
    BuildTyping.ofDigits base digits = Nat.ofDigits base digits.reverse := by
  induction digits using List.reverseRecOn with
  | nil => rfl
  | append_singleton digits d ih =>
    rw [ofDigits_append_singleton, ih, List.reverse_append, List.reverse_singleton,
      List.singleton_append, Nat.ofDigits_cons, Nat.add_comm]

/-- Digits of a base are read as the number that they stand for in it. -/
theorem readSigned?_inBase {base : Nat} (ne : digits ≠ [])
    (h : ∀ c ∈ digits, digitValue? base c = some (digit c)) :
    Integer.readSigned? base digits = some (inBase base digits : Int) := by
  have hunsigned : ∀ c ∈ digits, c ≠ '+' ∧ c ≠ '-' := by
    refine fun c hc => ⟨?_, ?_⟩ <;>
    · rintro rfl
      exact absurd (h _ hc) (by simp [digitValue?])
  rw [Integer.readSigned?_of_unsigned base hunsigned, readNatural?_of_digits ne h, ofDigits_eq,
    inBase, List.map_reverse]
  rfl

/-- A number with a point or an exponent and no radix is not whole. -/
theorem not_whole {d : Char} (hw : ∀ c ∈ w, c.isDigit = true ∨ c ∈ ['.', 'e', 'E', '+', '-'])
    (hd : d ∈ ['.', 'e', 'E']) (hmem : d ∈ w) : ¬Whole w := by
  rintro (⟨m, hm, hprefix⟩ | hnone)
  · have hmw : m ∈ w := hprefix.subset (by simp)
    have hmark := unmarked (hw m hmw)
    simp only [List.mem_cons, List.not_mem_nil, or_false] at hm
    rcases hm with rfl | rfl | rfl | rfl <;> simp [isHexMark, isOctalMark] at hmark
  · exact hnone d hd hmem

theorem value_of_isDigit (h : ∀ c ∈ w, c.isDigit = true) : value w = inBase 10 w := by
  fun_cases value w with
  | case1 m digits hm =>
    have hmark := (unmarked (.inl (h m (by simp)))).1
    simp [hm] at hmark
  | case2 m digits _ hm =>
    have hmark := (unmarked (.inl (h m (by simp)))).2
    simp [hm] at hmark
  | case3 | case4 => rfl

/-- A whole number is read as its value. -/
theorem readAny?_value (h : Form w) (hw : Whole w) : Integer.readAny? w = some (value w : Int) := by
  cases h with
  | @hex m digits hm ne hdigits =>
    have hx : m = 'x' ∨ m = 'X' := by simpa [isHexMark] using hm
    rw [Integer.readAny?, if_pos hx, value, if_pos hm,
      readSigned?_inBase ne fun c hc => digitValue?_hex (hdigits c hc)]
  | @octal m digits hm ne hdigits =>
    have hhex := isHexMark_of_isOctalMark hm
    have hx : ¬(m = 'x' ∨ m = 'X') := by simpa [isHexMark] using hhex
    have ho : m = 'o' ∨ m = 'O' := by simpa [isOctalMark] using hm
    rw [Integer.readAny?, if_neg hx, if_pos ho, value, if_neg (by simp [hhex]), if_pos hm,
      readSigned?_inBase ne fun c hc => digitValue?_octal (hdigits c hc)]
  | @point whole fraction exponent ne hwhole hfraction hexponent =>
    exact absurd hw (not_whole (unmarked_point hwhole hfraction hexponent) (d := '.') (by simp)
      (by simp))
  | @plain whole exponent ne hwhole hexponent =>
    have hchars := unmarked_plain hwhole hexponent
    cases hexponent with
    | none =>
      rw [List.append_nil, Integer.readAny?_of_isDigit hwhole,
        ← Integer.readSigned?_of_isDigit hwhole, value_of_isDigit hwhole,
        readSigned?_inBase ne fun c hc => digitValue?_decimal (hwhole c hc)]
    | @some e sign digits he =>
      refine absurd hw (not_whole hchars (d := e) ?_ (by simp))
      rcases he with rfl | rfl <;> simp

/-- A whole number is read exactly, unless it is greater than the greatest integer. -/
theorem read?_value (h : Form w) (hw : Whole w) :
    Integer.read? w = if value w ≤ 2 ^ 63 - 1 then some (value w : Int) else none := by
  rw [Integer.read?, readAny?_value h hw]
  by_cases hle : value w ≤ 2 ^ 63 - 1
  · have hword : Integer.IsWord (value w) := by
      simp only [Integer.IsWord, Nat.pow_eq]
      omega
    rw [if_pos hle]
    exact Option.filter_some_pos (by simpa using hword)
  · have hword : ¬Integer.IsWord (value w) := by
      simp only [Integer.IsWord, Nat.pow_eq]
      omega
    rw [if_neg hle]
    exact Option.filter_some_neg (by simpa using hword)

example : Integer.read? "0X1e".toList = some 30 ∧ Integer.read? "007".toList = some 7 ∧
    Integer.read? "0o1000000000000000000000".toList = none := by decide

end Numeral

end BuildTyping
