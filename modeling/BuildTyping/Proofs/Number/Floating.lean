import BuildTyping.Number.Binary64
import BuildTyping.Proofs.Number.Decimal
import BuildTyping.Proofs.Token.Numeral
import Mathlib.Data.List.TakeDrop
import Mathlib.Tactic.Tauto

/-!
# The texts of floating-point numbers

Which texts stand for a floating-point number. Each of them is read, and the numbers of a source
that are not whole are among them.
-/

namespace BuildTyping.Binary64

/-- Digits with at most one point. A digit stands on one side of it at least. -/
inductive Mantissa : List Char → Prop where
  | whole {digits : List Char} (ne : digits ≠ []) (digit : ∀ c ∈ digits, c.isDigit = true) :
      Mantissa digits
  | point {whole fraction : List Char} (ne : whole ≠ [] ∨ fraction ≠ [])
      (hwhole : ∀ c ∈ whole, c.isDigit = true) (hfraction : ∀ c ∈ fraction, c.isDigit = true) :
      Mantissa (whole ++ '.' :: fraction)

/-- A word in any case, or digits with an exponent or none. -/
inductive Unsigned : List Char → Prop where
  | word {w : List Char}
      (h : w.map Char.toLower ∈ ["inf".toList, "infinity".toList, "nan".toList]) : Unsigned w
  | number {mantissa exponent : List Char} (hmantissa : Mantissa mantissa)
      (hexponent : Numeral.Exponent exponent) : Unsigned (mantissa ++ exponent)

def IsSign (sign : List Char) : Prop := sign = [] ∨ sign = ['+'] ∨ sign = ['-']

/-- The texts that stand for a floating-point number. -/
def Grammatical (w : List Char) : Prop :=
  ∃ sign body, w = sign ++ body ∧ IsSign sign ∧ Unsigned body

variable {w sign body digits mantissa exponent : List Char}

theorem span_append {test : Char → Bool} (h : ∀ c ∈ w, test c = true)
    (hrest : ∀ c ∈ body.head?, test c = false) : (w ++ body).span test = (w, body) := by
  rw [List.span_eq_takeWhile_dropWhile, List.takeWhile_append_of_pos h,
    List.dropWhile_append_of_pos h]
  cases body with
  | nil => simp
  | cons c body =>
    have hc : test c = false := hrest c rfl
    simp [hc]

theorem readNatural?_isSome (ne : digits ≠ []) (h : ∀ c ∈ digits, c.isDigit = true) :
    ∃ n, readNatural? 10 digits = some n :=
  ⟨_, readNatural?_of_digits ne fun c hc => digitValue?_of_isDigit (h c hc)⟩

theorem readExponent?_isSome (hsign : IsSign sign) (ne : digits ≠ [])
    (h : ∀ c ∈ digits, c.isDigit = true) : ∃ n, readExponent? (sign ++ digits) = some n := by
  obtain ⟨n, hn⟩ := readNatural?_isSome ne h
  rcases hsign with rfl | rfl | rfl
  · have hread := Integer.readSigned?_of_isDigit h
    rw [hn] at hread
    exact ⟨n, hread⟩
  · exact ⟨n, by simp [readExponent?, hn]⟩
  · exact ⟨-n, by simp [readExponent?, hn]⟩

namespace Mantissa

theorem mem (h : Mantissa mantissa) {c : Char} (hc : c ∈ mantissa) :
    c.isDigit = true ∨ c = '.' := by
  cases h with
  | whole _ digit => exact .inl (digit c hc)
  | point _ hwhole hfraction =>
    rcases List.mem_append.1 hc with hc | hc
    · exact .inl (hwhole c hc)
    · exact (List.mem_cons.1 hc).symm.imp_left (hfraction c)

theorem ne_nil (h : Mantissa mantissa) : mantissa ≠ [] := by
  cases h with
  | whole ne => exact ne
  | point => simp

/-- The digits on both sides of the point are those of a number. -/
theorem reads (h : Mantissa mantissa) :
    ∃ whole fraction n, mantissa.span (· != '.') = (whole, fraction) ∧
      readNatural? 10 (whole ++ fraction.drop 1) = some n := by
  have hpoint {c : Char} (hc : c.isDigit = true) : (c != '.') = true := by
    rw [bne_iff_ne]
    rintro rfl
    exact absurd hc (by decide)
  cases h with
  | whole ne digit =>
    obtain ⟨n, hn⟩ := readNatural?_isSome ne digit
    have hspan : (mantissa ++ []).span (· != '.') = (mantissa, []) :=
      span_append (fun c hc => hpoint (digit c hc)) (by simp)
    exact ⟨mantissa, [], n, by rwa [List.append_nil] at hspan, by simpa using hn⟩
  | @point whole fraction ne hwhole hfraction =>
    have hall : ∀ c ∈ whole ++ fraction, c.isDigit = true := fun c hc =>
      (List.mem_append.1 hc).elim (hwhole c) (hfraction c)
    obtain ⟨n, hn⟩ := readNatural?_isSome (by simpa [← not_and_or] using ne) hall
    exact ⟨whole, '.' :: fraction, n, span_append (fun c hc => hpoint (hwhole c hc)) (by simp), hn⟩

end Mantissa

theorem readDecimal?_isSome (hmantissa : Mantissa mantissa)
    (hexponent : Numeral.Exponent exponent) :
    ∃ decimal, readDecimal? (mantissa ++ exponent) = some decimal := by
  have hspan : (mantissa ++ exponent).span (fun c => !(c == 'e' || c == 'E')) =
      (mantissa, exponent) := by
    refine span_append (fun c hc => ?_) fun c hc => ?_
    · rw [Bool.not_eq_true', ← Bool.not_eq_true]
      intro he
      simp only [Bool.or_eq_true, beq_iff_eq] at he
      rcases he with rfl | rfl <;> exact absurd (hmantissa.mem hc) (by decide)
    · rcases hexponent.head c hc with rfl | rfl <;> rfl
  obtain ⟨whole, fraction, n, hwhole, hn⟩ := hmantissa.reads
  simp only [readDecimal?, hspan, hwhole, hn]
  cases hexponent with
  | none => exact ⟨_, rfl⟩
  | some he hsign ne digit =>
    obtain ⟨k, hk⟩ := readExponent?_isSome hsign ne digit
    simp only [hk]
    exact ⟨_, rfl⟩

namespace Unsigned

theorem head (h : Unsigned body) : ∀ c ∈ body.head?, c ≠ '+' ∧ c ≠ '-' := by
  intro c hc
  cases h with
  | word h =>
    obtain ⟨cs, rfl⟩ := List.head?_eq_some_iff.1 hc
    constructor <;>
    · rintro rfl
      simp at h
  | @number mantissa exponent hmantissa =>
    obtain ⟨d, ds, rfl⟩ := List.exists_cons_of_ne_nil hmantissa.ne_nil
    have hd := hmantissa.mem (c := d) (by simp)
    have hcd : d = c := by simpa using hc
    subst hcd
    constructor <;>
    · rintro rfl
      exact absurd hd (by decide)

theorem readUnsigned? (h : Unsigned body) (negative : Bool) :
    ∃ x, Binary64.readUnsigned? negative body = some x := by
  rw [Binary64.readUnsigned?]
  split
  · exact ⟨_, rfl⟩
  · rename_i hnan
    split
    · exact ⟨_, rfl⟩
    · rename_i hinf
      cases h with
      | word h =>
        simp only [List.mem_cons, List.not_mem_nil, or_false] at h
        tauto
      | number hmantissa hexponent =>
        obtain ⟨decimal, hdecimal⟩ := readDecimal?_isSome hmantissa hexponent
        exact ⟨_, by rw [hdecimal]; rfl⟩

end Unsigned

/-- Every text of the grammar is read. -/
theorem Grammatical.read? (h : Grammatical w) : ∃ x, Binary64.read? w = some x := by
  obtain ⟨sign, body, rfl, hsign, hbody⟩ := h
  rcases hsign with rfl | rfl | rfl
  · have hread : Binary64.read? body = Binary64.readUnsigned? false body := by
      unfold Binary64.read?
      split
      · exact absurd rfl (hbody.head '-' rfl).2
      · exact absurd rfl (hbody.head '+' rfl).1
      · rfl
    rw [List.nil_append, hread]
    exact hbody.readUnsigned? false
  · exact hbody.readUnsigned? false
  · exact hbody.readUnsigned? true

/-- A number of a source is of the grammar if it is not whole. -/
theorem grammatical_of_form (h : Numeral.Form w) (hw : ¬Numeral.Whole w) : Grammatical w := by
  cases h with
  | @hex m digits hm =>
    refine absurd (.inl ⟨m, ?_, digits, rfl⟩) hw
    simp only [Numeral.isHexMark, Bool.or_eq_true, beq_iff_eq] at hm
    rcases hm with rfl | rfl <;> simp
  | @octal m digits hm =>
    refine absurd (.inl ⟨m, ?_, digits, rfl⟩) hw
    simp only [Numeral.isOctalMark, Bool.or_eq_true, beq_iff_eq] at hm
    rcases hm with rfl | rfl <;> simp
  | @point whole fraction exponent ne hwhole hfraction hexponent =>
    refine ⟨[], (whole ++ '.' :: fraction) ++ exponent, by simp, .inl rfl, ?_⟩
    exact .number (.point ne hwhole hfraction) hexponent
  | plain ne hwhole hexponent =>
    exact ⟨[], _, rfl, .inl rfl, .number (.whole ne hwhole) hexponent⟩

end BuildTyping.Binary64
