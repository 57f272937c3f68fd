import BuildTyping.Proofs.Token.Literal
import BuildTyping.Token.Basic
import BuildTyping.Token.Lexeme
import Mathlib.Data.List.TakeWhile

/-!
# Spellings

What stands in a source for each lexeme and each kind of token, and what may stand between two
tokens.
-/

namespace BuildTyping

namespace TokenKind

/-- The kinds whose tokens always have a text in the source. -/
def isSolid : TokenKind → Bool
  | newline | indent | dedent | endOfSource => false
  | _ => true

@[simp] theorem isSolid_int : int.isSolid = true := rfl
@[simp] theorem isSolid_float : float.isSolid = true := rfl
@[simp] theorem isSolid_string : string.isSolid = true := rfl
@[simp] theorem isSolid_identifier : identifier.isSolid = true := rfl
@[simp] theorem isSolid_opening (b : Bracket) : (opening b).isSolid = true := rfl
@[simp] theorem isSolid_closing (b : Bracket) : (closing b).isSolid = true := rfl
@[simp] theorem isSolid_sign (s : Sign) : (sign s).isSolid = true := rfl
@[simp] theorem isSolid_keyword (k : Keyword) : (keyword k).isSolid = true := rfl

theorem ne_endOfSource_of_isSolid {kind : TokenKind} (h : kind.isSolid = true) :
    kind ≠ endOfSource := by
  rintro rfl
  simp [isSolid] at h

end TokenKind

def IsLineEnd (text : List Char) : Prop := text = ['\n'] ∨ text = ['\r', '\n']

/-- What may stand between tokens before the text `rest`: white space, comments up to the end of
their line, line ends after a backslash, and line ends. -/
inductive Trivia (rest : List Char) : List Char → Prop where
  | nil : Trivia rest []
  | space {c : Char} {gap : List Char} (hc : c = ' ' ∨ c = '\t' ∨ c = '\x0c')
      (more : Trivia rest gap) : Trivia rest (c :: gap)
  | comment {text gap : List Char} (htext : '\n' ∉ text)
      (ends : ∀ c ∈ (gap ++ rest).head?, c = '\n') (more : Trivia rest gap) :
      Trivia rest ('#' :: text ++ gap)
  | joined {eol gap : List Char} (heol : IsLineEnd eol) (more : Trivia rest gap) :
      Trivia rest ('\\' :: eol ++ gap)
  | lineEnd {eol gap : List Char} (heol : IsLineEnd eol) (more : Trivia rest gap) :
      Trivia rest (eol ++ gap)

namespace Trivia

theorem append {gap more rest : List Char} (h : Trivia (more ++ rest) gap)
    (h' : Trivia rest more) : Trivia rest (gap ++ more) := by
  induction h with
  | nil => exact h'
  | space hc _ ih => exact .space hc ih
  | comment htext ends _ ih =>
    rw [List.append_assoc]
    refine .comment htext ?_ ih
    rwa [List.append_assoc]
  | joined heol _ ih =>
    rw [List.append_assoc]
    exact .joined heol ih
  | lineEnd heol _ ih =>
    rw [List.append_assoc]
    exact .lineEnd heol ih

theorem of_spaces (rest : List Char) {text : List Char}
    (h : ∀ c ∈ text, Lexeme.isSpace c = true) : Trivia rest text := by
  induction text with
  | nil => exact .nil
  | cons c text ih =>
    obtain ⟨hc, htext⟩ := List.forall_mem_cons.1 h
    refine .space ?_ (ih htext)
    simpa [Lexeme.isSpace, or_assoc] using hc

end Trivia

namespace Numeral

theorem take_countWhile (test : Char → Bool) (cs : List Char) :
    cs.take (countWhile test cs) = cs.takeWhile test :=
  (List.prefix_iff_eq_take.1 (List.takeWhile_prefix test)).symm

theorem drop_countWhile (test : Char → Bool) (cs : List Char) :
    cs.drop (countWhile test cs) = cs.dropWhile test := by
  have h := List.take_append_drop (countWhile test cs) cs
  rw [take_countWhile] at h
  exact List.append_cancel_left (h.trans List.takeWhile_append_dropWhile.symm)

end Numeral

namespace Lexeme

open Numeral (countWhile take_countWhile drop_countWhile)

variable {cs : List Char} {n : Nat}

/-- What the text starts with where a lexeme of `n` characters is read. -/
def Reads (cs : List Char) (n : Nat) : Lexeme → Prop
  | gap => n = gapLength cs
  | lineEnd => n = lineEndLength cs ∧ 0 < n
  | string => Quotation.length? cs = some n
  | unterminated => n = 1
  | number => n = Numeral.length cs
  | word => n = wordLength cs
  | opening b => cs.take n = [b.opener]
  | closing b => cs.take n = [b.closer]
  | sign s => cs.take n = s.text.toList

theorem reads_of_next? {lexeme : Lexeme} (h : next? cs = some (lexeme, n)) :
    lexeme.Reads cs n := by
  cases cs with
  | nil => simp [next?] at h
  | cons c rest =>
    simp only [next?] at h
    split at h
    · cases h
      rfl
    · split at h
      · rename_i hend
        cases h
        exact ⟨rfl, hend⟩
      · split at h
        · rename_i m hm
          cases h
          exact hm
        · split at h
          · cases h
            rfl
          · split at h
            · cases h
              rfl
            · split at h
              · cases h
                rfl
              · split at h
                · rename_i b hb
                  cases h
                  have hopener : b.opener = c := by simpa using List.find?_some hb
                  simp [Reads, hopener]
                · rename_i b _ hb
                  cases h
                  have hcloser : b.closer = c := by simpa using List.find?_some hb
                  simp [Reads, hcloser]
                · rename_i s _ _ hs
                  cases h
                  rw [Reads, ← String.length_toList]
                  exact (List.prefix_iff_eq_take.1 (sign?_isPrefix hs)).symm
                · simp at h

/-- A comment ends before the next line end. -/
theorem newline_of_mem_head? {c : Char} (h : c ∈ (cs.dropWhile (· != '\n')).head?) : c = '\n' := by
  have hhead := List.head?_dropWhile_not (· != '\n') cs
  rw [Option.mem_def] at h
  rw [h] at hhead
  simpa using hhead

theorem trivia_of_gap (h : next? cs = some (.gap, n)) : Trivia (cs.drop n) (cs.take n) := by
  obtain rfl := reads_of_next? h
  fun_cases gapLength cs with
  | case1 rest => exact .joined (.inl rfl) .nil
  | case2 rest => exact .joined (.inr rfl) .nil
  | case3 rest =>
    rw [Nat.add_comm, List.take_succ_cons, List.drop_succ_cons, take_countWhile, drop_countWhile,
      ← List.append_nil (List.takeWhile _ rest), ← List.cons_append]
    refine .comment ?_ ?_ .nil
    · intro hmem
      simpa using List.mem_takeWhile_imp hmem
    · intro c hc
      exact newline_of_mem_head? hc
  | case4 =>
    rw [take_countWhile]
    exact .of_spaces _ fun c hc => List.mem_takeWhile_imp hc

theorem isLineEnd_of_lineEnd (h : next? cs = some (.lineEnd, n)) : IsLineEnd (cs.take n) := by
  obtain ⟨rfl, hpos⟩ := reads_of_next? h
  fun_cases lineEndLength cs with
  | case1 rest => exact .inl rfl
  | case2 rest => exact .inr rfl
  | case3 => simp_all [lineEndLength]

end Lexeme

/-- What the text of a token is. Outside the layout the value is the text itself, but for a string
it is what the literal stands for. -/
def Token.Spells (t : Token) (text : List Char) : Prop :=
  match t.kind with
  | .endOfSource | .dedent => text = []
  | .newline => text = [] ∨ IsLineEnd text
  | .indent => ∀ c ∈ text, c = ' ' ∨ c = '\t'
  | .string => Quotation.Literal text t.value.toList
  | .int | .float | .identifier => text ≠ [] ∧ t.value.toList = text
  | .opening b => text = [b.opener] ∧ t.value.toList = text
  | .closing b => text = [b.closer] ∧ t.value.toList = text
  | .sign s => text = s.text.toList ∧ t.value.toList = text
  | .keyword k => text = k.text.toList ∧ t.value.toList = text

theorem Quotation.Literal.ne_nil {text value : List Char} (h : Literal text value) :
    text ≠ [] := by
  obtain ⟨mark, quoted, body, rfl, -, -, hquoted, -⟩ := h
  cases hquoted <;> simp

theorem Token.Spells.ne_nil {t : Token} {text : List Char} (h : t.Spells text)
    (hs : t.kind.isSolid = true) : text ≠ [] := by
  obtain ⟨kind, value, span⟩ := t
  cases kind with
  | newline | indent | dedent | endOfSource => simp [TokenKind.isSolid] at hs
  | string => exact Quotation.Literal.ne_nil h
  | int | float | identifier => exact h.1
  | opening | closing => simp [h.1]
  | sign s => exact h.1 ▸ s.text_ne_empty
  | keyword k =>
    rw [h.1]
    cases k <;> decide

end BuildTyping
