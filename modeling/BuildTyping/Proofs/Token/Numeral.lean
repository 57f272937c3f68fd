import BuildTyping.Proofs.Token.Cut

/-!
# The forms of a number

What a number is, said without reading it: digits behind a zero and the mark of their radix, or
decimal digits with a point, an exponent, both or neither. Each form is read to its end.
-/

namespace BuildTyping.Numeral

/-- An exponent or nothing. -/
inductive Exponent : List Char → Prop where
  | none : Exponent []
  | some {e : Char} {sign digits : List Char} (he : e = 'e' ∨ e = 'E')
      (hsign : sign = [] ∨ sign = ['+'] ∨ sign = ['-']) (ne : digits ≠ [])
      (digit : ∀ c ∈ digits, c.isDigit = true) : Exponent (e :: (sign ++ digits))

inductive Form : List Char → Prop where
  | hex {m : Char} {digits : List Char} (hm : isHexMark m = true) (ne : digits ≠ [])
      (digit : ∀ c ∈ digits, isHexDigit c = true) : Form ('0' :: m :: digits)
  | octal {m : Char} {digits : List Char} (hm : isOctalMark m = true) (ne : digits ≠ [])
      (digit : ∀ c ∈ digits, isOctalDigit c = true) : Form ('0' :: m :: digits)
  /-- A digit stands on one side of the point at least. -/
  | point {whole fraction exponent : List Char} (ne : whole ≠ [] ∨ fraction ≠ [])
      (hwhole : ∀ c ∈ whole, c.isDigit = true) (hfraction : ∀ c ∈ fraction, c.isDigit = true)
      (hexponent : Exponent exponent) : Form (whole ++ '.' :: (fraction ++ exponent))
  | plain {whole exponent : List Char} (ne : whole ≠ []) (hwhole : ∀ c ∈ whole, c.isDigit = true)
      (hexponent : Exponent exponent) : Form (whole ++ exponent)

/-- A number is an integer if it has a radix or neither a point nor an exponent. -/
def Whole (text : List Char) : Prop :=
  (∃ m ∈ ['x', 'X', 'o', 'O'], ['0', m] <+: text) ∨ ∀ c ∈ ['.', 'e', 'E'], c ∉ text

variable {w digits exponent : List Char}

theorem hasRadix_iff : hasRadix w = true ↔ ∃ m ∈ ['x', 'X', 'o', 'O'], ['0', m] <+: w := by
  fun_cases hasRadix w with
  | case1 m cs => simp [isHexMark, isOctalMark, or_assoc]
  | case2 =>
    rename_i hne
    simp only [Bool.false_eq_true, false_iff, not_exists, not_and]
    intro m hm hprefix
    obtain ⟨cs, htext⟩ := hprefix
    exact hne m cs htext.symm

theorem isFloat_eq_false_iff : isFloat w = false ↔ Whole w := by
  rw [isFloat, Bool.and_eq_false_iff, Bool.not_eq_false', hasRadix_iff, Whole]
  refine or_congr_right ?_
  rw [List.any_eq_false]
  constructor
  · intro h c hc hmem
    refine h c hmem ?_
    simpa [or_assoc] using hc
  · intro h c hc htest
    refine h c ?_ hc
    simpa [or_assoc] using htest

theorem countWhile_of_all {test : Char → Bool} (h : ∀ c ∈ digits, test c = true) :
    countWhile test digits = digits.length := by
  have hcount := countWhile_of_forall (x := []) h (by simp)
  rwa [List.append_nil] at hcount

theorem radixLength_of_digits {mark digit : Char → Bool} {m : Char} (hm : mark m = true)
    (ne : digits ≠ []) (h : ∀ c ∈ digits, digit c = true) :
    radixLength mark digit ('0' :: m :: digits) = ('0' :: m :: digits).length := by
  have hpos := List.length_pos_iff.2 ne
  rw [radixLength_zero, countWhile_of_all h, if_pos (by simp [hm, hpos]), List.length_cons,
    List.length_cons, Nat.add_comm]

theorem radixLength_of_forall {mark digit : Char → Bool} (h : ∀ c ∈ w, mark c = false) :
    radixLength mark digit w = 0 := by
  cases w with
  | nil => rfl
  | cons c w =>
    refine radixLength_of_unmarked c fun m hm => h m ?_
    exact List.mem_cons_of_mem c (List.mem_of_head? hm)

/-- A sign is told from digits by its first character. -/
theorem signLength_of_digits (ne : digits ≠ []) (h : ∀ c ∈ digits, c.isDigit = true) :
    signLength digits = 0 := by
  obtain ⟨c, cs, rfl⟩ := List.exists_cons_of_ne_nil ne
  have hc : c.isDigit = true := h c (by simp)
  have hplus : c ≠ '+' := by
    rintro rfl
    exact absurd hc (by decide)
  have hminus : c ≠ '-' := by
    rintro rfl
    exact absurd hc (by decide)
  simp [signLength, hplus, hminus]

namespace Exponent

theorem length (h : Exponent exponent) : exponentLength exponent = exponent.length := by
  cases h with
  | none => rfl
  | @some e sign digits he hsign ne digit =>
    have hpos := List.length_pos_iff.2 ne
    have hlength : signLength (sign ++ digits) = sign.length := by
      rcases hsign with rfl | rfl | rfl
      · exact signLength_of_digits ne digit
      · rfl
      · rfl
    rw [exponentLength_cons, hlength, List.drop_left, countWhile_of_all digit,
      if_pos ⟨he, hpos⟩, List.length_cons, List.length_append]
    omega

theorem head (h : Exponent exponent) : ∀ c ∈ exponent.head?, c = 'e' ∨ c = 'E' := by
  cases h with
  | none => simp
  | some he => simpa using he

theorem isDigit_head (h : Exponent exponent) : ∀ c ∈ exponent.head?, c.isDigit = false := by
  intro c hc
  rcases h.head c hc with rfl | rfl <;> rfl

/-- The marks of a radix do not belong to an exponent. -/
theorem mem (h : Exponent exponent) {c : Char} (hc : c ∈ exponent) :
    c.isDigit = true ∨ c ∈ ['e', 'E', '+', '-'] := by
  cases h with
  | none => simp at hc
  | some he hsign ne digit =>
    rcases List.mem_cons.1 hc with rfl | hc
    · right
      rcases he with rfl | rfl <;> decide
    · rcases List.mem_append.1 hc with hc | hc
      · right
        rcases hsign with rfl | rfl | rfl
        · simp at hc
        · simp [List.mem_singleton.1 hc]
        · simp [List.mem_singleton.1 hc]
      · exact .inl (digit c hc)

end Exponent

/-- The characters of a number without a radix are no marks of one. -/
theorem unmarked {c : Char} (h : c.isDigit = true ∨ c ∈ ['.', 'e', 'E', '+', '-']) :
    isHexMark c = false ∧ isOctalMark c = false := by
  constructor
  · rw [← Bool.not_eq_true]
    intro hm
    simp only [isHexMark, Bool.or_eq_true, beq_iff_eq] at hm
    rcases hm with rfl | rfl <;> exact absurd h (by decide)
  · rw [← Bool.not_eq_true]
    intro hm
    simp only [isOctalMark, Bool.or_eq_true, beq_iff_eq] at hm
    rcases hm with rfl | rfl <;> exact absurd h (by decide)

theorem isHexMark_of_isOctalMark {m : Char} (h : isOctalMark m = true) : isHexMark m = false := by
  simp only [isOctalMark, Bool.or_eq_true, beq_iff_eq] at h
  rcases h with rfl | rfl <;> rfl

theorem length_of_unmarked (h : ∀ c ∈ w, c.isDigit = true ∨ c ∈ ['.', 'e', 'E', '+', '-']) :
    length w = decimalLength w := by
  have hhex : radixLength isHexMark isHexDigit w = 0 :=
    radixLength_of_forall fun c hc => (unmarked (h c hc)).1
  have hoctal : radixLength isOctalMark isOctalDigit w = 0 :=
    radixLength_of_forall fun c hc => (unmarked (h c hc)).2
  simp [length, hhex, hoctal]

theorem unmarked_point {whole fraction : List Char} (hwhole : ∀ c ∈ whole, c.isDigit = true)
    (hfraction : ∀ c ∈ fraction, c.isDigit = true) (hexponent : Exponent exponent) :
    ∀ c ∈ whole ++ '.' :: (fraction ++ exponent),
      c.isDigit = true ∨ c ∈ ['.', 'e', 'E', '+', '-'] := by
  intro c hc
  simp only [List.mem_append, List.mem_cons] at hc
  rcases hc with hc | rfl | hc | hc
  · exact .inl (hwhole c hc)
  · simp
  · exact .inl (hfraction c hc)
  · exact (hexponent.mem hc).imp_right (List.mem_cons_of_mem _)

theorem unmarked_plain {whole : List Char} (hwhole : ∀ c ∈ whole, c.isDigit = true)
    (hexponent : Exponent exponent) :
    ∀ c ∈ whole ++ exponent, c.isDigit = true ∨ c ∈ ['.', 'e', 'E', '+', '-'] := by
  intro c hc
  rcases List.mem_append.1 hc with hc | hc
  · exact .inl (hwhole c hc)
  · exact (hexponent.mem hc).imp_right (List.mem_cons_of_mem _)

namespace Form

/-- A number is read to its end. -/
theorem length_eq (h : Form w) : length w = w.length := by
  cases h with
  | hex hm ne digit =>
    simp [length, radixLength_of_digits hm ne digit]
  | @octal m digits hm ne digit =>
    have hhex := isHexMark_of_isOctalMark hm
    have hnone : radixLength isHexMark isHexDigit ('0' :: m :: digits) = 0 :=
      radixLength_of_unmarked '0' (by simpa using hhex)
    simp [length, hnone, radixLength_of_digits hm ne digit]
  | @point whole fraction exponent ne hwhole hfraction hexponent =>
    have hchars := unmarked_point hwhole hfraction hexponent
    have hfirst : countWhile Char.isDigit (whole ++ '.' :: (fraction ++ exponent)) = whole.length :=
      countWhile_of_forall hwhole (by simp)
    have hsecond : countWhile Char.isDigit (fraction ++ exponent) = fraction.length :=
      countWhile_of_forall hfraction hexponent.isDigit_head
    have hsome : ¬(whole.length = 0 ∧ fraction.length = 0) := by
      simpa [← List.length_eq_zero_iff, imp_iff_not_or] using ne
    rw [length_of_unmarked hchars, decimalLength_eq, hfirst, List.drop_left, lengthBehind_point,
      hsecond, if_neg hsome, List.drop_left, hexponent.length]
    simp only [List.length_append, List.length_cons]
    omega
  | @plain whole exponent ne hwhole hexponent =>
    have hchars := unmarked_plain hwhole hexponent
    have hfirst : countWhile Char.isDigit (whole ++ exponent) = whole.length :=
      countWhile_of_forall hwhole hexponent.isDigit_head
    have hpoint : '.' ∉ exponent.head? := by
      intro hmem
      exact absurd (hexponent.head '.' hmem) (by decide)
    have hpos : ¬whole.length = 0 := by simpa using ne
    rw [length_of_unmarked hchars, decimalLength_eq, hfirst, List.drop_left,
      lengthBehind_of_ne hpoint, if_neg hpos, hexponent.length, List.length_append]

/-- A number begins with a digit or a point. -/
theorem head (h : Form w) : ∃ c cs, w = c :: cs ∧ (c.isDigit = true ∨ c = '.') := by
  cases h with
  | hex | octal => exact ⟨_, _, rfl, .inl (by decide)⟩
  | @point whole fraction exponent ne hwhole =>
    cases whole with
    | nil => exact ⟨_, _, rfl, .inr rfl⟩
    | cons c whole => exact ⟨_, _, rfl, .inl (hwhole c (by simp))⟩
  | @plain whole exponent ne hwhole =>
    obtain ⟨c, cs, rfl⟩ := List.exists_cons_of_ne_nil ne
    exact ⟨_, _, rfl, .inl (hwhole c (by simp))⟩

end Form

/-- The characters of a count all pass its test. -/
theorem mem_take_countWhile {test : Char → Bool} {c : Char} {cs : List Char}
    (h : c ∈ cs.take (countWhile test cs)) : test c = true :=
  List.mem_takeWhile_imp (take_countWhile test cs ▸ h)

theorem take_countWhile_ne_nil {test : Char → Bool} {cs : List Char}
    (h : 0 < countWhile test cs) : cs.take (countWhile test cs) ≠ [] := by
  rw [take_countWhile]
  exact List.length_pos_iff.1 h

theorem take_signLength (cs : List Char) :
    cs.take (signLength cs) = [] ∨ cs.take (signLength cs) = ['+'] ∨
      cs.take (signLength cs) = ['-'] := by
  fun_cases signLength cs <;> simp

/-- What is read as an exponent is one. -/
theorem exponent_take (cs : List Char) : Exponent (cs.take (exponentLength cs)) := by
  cases cs with
  | nil => exact .none
  | cons e cs =>
    rw [exponentLength_cons]
    split
    · rename_i he
      rw [Nat.add_assoc, Nat.add_comm 1, List.take_succ_cons, List.take_add]
      exact .some he.1 (take_signLength cs) (take_countWhile_ne_nil he.2)
        fun c hc => mem_take_countWhile hc
    · exact .none

/-- What is read in a radix begins with a zero and the mark. -/
theorem exists_of_radixLength {mark digit : Char → Bool} {cs : List Char}
    (h : 0 < radixLength mark digit cs) :
    ∃ m digits, cs.take (radixLength mark digit cs) = '0' :: m :: digits ∧ mark m = true ∧
      digits ≠ [] ∧ ∀ c ∈ digits, digit c = true := by
  revert h
  fun_cases radixLength mark digit cs with
  | case1 m cs hpos =>
    simp only [Bool.and_eq_true, decide_eq_true_eq] at hpos
    refine fun _ => ⟨m, cs.take (countWhile digit cs), ?_, hpos.1, take_countWhile_ne_nil hpos.2,
      fun c hc => mem_take_countWhile hc⟩
    rw [Nat.add_comm, List.take_succ_cons, List.take_succ_cons]
  | case2 | case3 => exact fun h => absurd h (Nat.lt_irrefl 0)

theorem form_take_decimal {cs : List Char} (h : 0 < decimalLength cs) :
    Form (cs.take (decimalLength cs)) := by
  have hwhole : ∀ c ∈ cs.take (countWhile Char.isDigit cs), c.isDigit = true := fun c hc =>
    mem_take_countWhile hc
  have hne : ¬countWhile Char.isDigit cs = 0 → cs.take (countWhile Char.isDigit cs) ≠ [] :=
    fun hcount => take_countWhile_ne_nil (Nat.pos_of_ne_zero hcount)
  rw [decimalLength_eq] at h ⊢
  generalize hrest : cs.drop (countWhile Char.isDigit cs) = rest at h ⊢
  by_cases hpoint : '.' ∈ rest.head?
  · obtain ⟨rest, rfl⟩ := List.head?_eq_some_iff.1 hpoint
    rw [lengthBehind_point] at h ⊢
    split at h
    · exact absurd h (Nat.lt_irrefl 0)
    · rename_i hcount
      rw [if_neg hcount, Nat.add_assoc, Nat.add_assoc, List.take_add, hrest, Nat.add_comm 1,
        List.take_succ_cons, List.take_add]
      refine .point ?_ hwhole (fun c hc => mem_take_countWhile hc) (exponent_take _)
      rw [not_and_or] at hcount
      exact hcount.imp hne fun h => take_countWhile_ne_nil (Nat.pos_of_ne_zero h)
  · rw [lengthBehind_of_ne hpoint] at h ⊢
    split at h
    · exact absurd h (Nat.lt_irrefl 0)
    · rename_i hcount
      rw [if_neg hcount, List.take_add, hrest]
      exact .plain (hne hcount) hwhole (exponent_take _)

/-- What is read as a number is one. -/
theorem form_take {cs : List Char} (h : 0 < length cs) : Form (cs.take (length cs)) := by
  rw [length] at h ⊢
  split at h
  · rename_i hhex
    obtain ⟨m, digits, htake, hm, hne, hdigits⟩ := exists_of_radixLength hhex
    rw [if_pos hhex, htake]
    exact .hex hm hne hdigits
  · rename_i hhex
    split at h
    · rename_i hoctal
      obtain ⟨m, digits, htake, hm, hne, hdigits⟩ := exists_of_radixLength hoctal
      rw [if_neg hhex, if_pos hoctal, htake]
      exact .octal hm hne hdigits
    · rename_i hoctal
      rw [if_neg hhex, if_neg hoctal]
      exact form_take_decimal h

end BuildTyping.Numeral
