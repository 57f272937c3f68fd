import BuildTyping.Grammar.Expression
import BuildTyping.Proofs.Grammar.Run
import BuildTyping.Proofs.Grammar.Tree
import BuildTyping.Proofs.Number.Floating
import BuildTyping.Proofs.Number.Value
import BuildTyping.Proofs.Token.Written

/-!
# Numbers from a source to an expression

The text of a number, from the scanner that emits a token for it to the reader that makes an
expression of the token. A whole number keeps its exact value or is refused, and any other number is
never refused.
-/

namespace BuildTyping

/-- What reading the current token as a literal comes to. -/
def Reader.literal (r : Reader) (value : Literal) : EStateM.Result Fault Reader Expr :=
  .ok ⟨r.count, r.current.span, .literal value⟩ { r.next with count := r.count + 1 }

/-- How the token of a number is read. A whole number is its value, or is refused with its text and
where it starts if that value is greater than the greatest integer. The text of any other number is
one of a floating-point number, and is read. -/
def Token.ReadsAsNumber (t : Token) : Prop :=
  (t.kind = .int ∧ Numeral.Whole t.value.toList ∧ ∀ r : Reader, r.current = t → Parse.atom r =
    if Numeral.value t.value.toList ≤ 2 ^ 63 - 1 then
      r.literal (.int (Numeral.value t.value.toList))
    else .error ⟨.malformedNumber t.value, t.span.start⟩ r) ∨
  (t.kind = .float ∧ ¬Numeral.Whole t.value.toList ∧ Binary64.Grammatical t.value.toList ∧
    ∀ r : Reader, r.current = t →
      ∃ x, Binary64.read? t.value.toList = some x ∧ Parse.atom r = r.literal (.float x))

namespace Parse

variable {r : Reader}

theorem leaf_run (value : Literal) :
    (advance >>= fun _ => node r.current.span (.literal value)) r = r.literal value := by
  rw [advance_bind_run, node_run, Reader.count_next]
  rfl

theorem atom_int (h : r.current.kind = .int) :
    atom r = match Integer.read? r.current.value.toList with
      | some n => r.literal (.int n)
      | none => .error ⟨.malformedNumber r.current.value, r.current.span.start⟩ r := by
  simp only [atom, get_bind_run, h]
  cases Integer.read? r.current.value.toList with
  | some n => exact leaf_run (.int n)
  | none => rfl

theorem atom_float (h : r.current.kind = .float) :
    atom r = match Binary64.read? r.current.value.toList with
      | some x => r.literal (.float x)
      | none => .error ⟨.malformedNumber r.current.value, r.current.span.start⟩ r := by
  simp only [atom, get_bind_run, h]
  cases Binary64.read? r.current.value.toList with
  | some x => exact leaf_run (.float x)
  | none => rfl

end Parse

theorem Token.readsAsNumber {t : Token} (h : Numeral.Form t.value.toList)
    (hkind : t.kind = if Numeral.isFloat t.value.toList then .float else .int) :
    t.ReadsAsNumber := by
  by_cases hfloat : Numeral.isFloat t.value.toList = true
  · rw [if_pos hfloat] at hkind
    have hwhole : ¬Numeral.Whole t.value.toList := by
      rw [← Numeral.isFloat_eq_false_iff, hfloat]
      exact Bool.noConfusion
    have hgrammar := Binary64.grammatical_of_form h hwhole
    obtain ⟨x, hx⟩ := hgrammar.read?
    refine .inr ⟨hkind, hwhole, hgrammar, ?_⟩
    rintro r rfl
    exact ⟨x, hx, by rw [Parse.atom_float hkind, hx]⟩
  · rw [if_neg hfloat] at hkind
    have hwhole := Numeral.isFloat_eq_false_iff.1 (Bool.not_eq_true _ ▸ hfloat)
    refine .inl ⟨hkind, hwhole, ?_⟩
    rintro r rfl
    rw [Parse.atom_int hkind, Numeral.read?_value h hwhole]
    by_cases hle : Numeral.value r.current.value.toList ≤ 2 ^ 63 - 1
    · rw [if_pos hle, if_pos hle]
    · rw [if_neg hle, if_neg hle]

/-- A scanner at a number emits one token with the text of the number, which is read exactly. -/
theorem Scanner.number_exact {s : Scanner} (h : 0 < Numeral.length s.rest) :
    ∃ t s', s.readLexeme = .ok ([t], s') ∧
      t.value.toList = s.rest.take (Numeral.length s.rest) ∧ t.span.start = s.position s.offset ∧
      t.ReadsAsNumber := by
  refine ⟨_, _, by rw [readLexeme, Lexeme.next?_of_numeral h]; rfl, String.toList_ofList, rfl, ?_⟩
  refine Token.readsAsNumber ?_ ?_
  · exact String.toList_ofList ▸ Numeral.form_take h
  · rw [String.toList_ofList]

/-- The least whole number that is refused, in base sixteen and in upper case. -/
theorem Scanner.number_exact_hex :
    let s := Scanner.start "0X8000000000000000 + 1.".toList "BUILD"
    0 < Numeral.length s.rest ∧ ∃ t s', s.readLexeme = .ok ([t], s') ∧
      t.value.toList = s.rest.take (Numeral.length s.rest) ∧ t.span.start = s.position s.offset ∧
      t.ReadsAsNumber :=
  ⟨by decide, Scanner.number_exact (by decide)⟩

end BuildTyping
