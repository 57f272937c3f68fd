import BuildTyping.Proofs.Token.BlockLiteral
import Mathlib.Data.List.Forall2

/-!
# Spelled text between two quotes

A character may be written in several ways between two quotes. Whichever way is chosen for each
character of a text, what is written does not close the literal and is decoded to the text.
-/

namespace BuildTyping

namespace Quotation

/-- The hexadecimal digits of either case with their values. -/
def hexDigits : List (Char × Nat) :=
  "0123456789abcdef".toList.zipIdx ++ "0123456789ABCDEF".toList.zipIdx

/-- The letters that name a character behind a backslash. -/
def letters : List (Char × Char) := [('n', '\n'), ('t', '\t'), ('r', '\r'), ('0', '\x00')]

/-- The ways to write a character between two quotes. -/
inductive Spelling (quote c : Char) : List Char → Prop where
  | verbatim (hq : c ≠ quote) (hn : c ≠ '\n') (hb : c ≠ '\\') : Spelling quote c [c]
  | escaped (h : c = '\\' ∨ isQuote c = true) : Spelling quote c ['\\', c]
  | letter {l : Char} (h : (l, c) ∈ letters) : Spelling quote c ['\\', l]
  | code {a b : Char} {m n : Nat} (ha : (a, m) ∈ hexDigits) (hb : (b, n) ∈ hexDigits)
      (h : c.toNat = 16 * m + n) : Spelling quote c ['\\', 'x', a, b]

/-- A text on one line between quotes behind a mark. -/
def line (mark : List Char) (quote : Char) (body : List Char) : List Char :=
  mark ++ ([quote] ++ body ++ [quote])

variable {quote c : Char} {mark text body cs value : List Char} {pieces : List (List Char)}

theorem hexDigits_read : ∀ p ∈ hexDigits, Numeral.isHexDigit p.1 = true ∧
    digitValue? 16 p.1 = some p.2 ∧ p.1 ≠ '\n' ∧ p.1 ≠ '\\' ∧ isQuote p.1 = false := by
  decide

theorem ofHex_of_mem {a b : Char} {m n : Nat} (ha : (a, m) ∈ hexDigits)
    (hb : (b, n) ∈ hexDigits) (h : c.toNat = 16 * m + n) : ofHex [a, b] = c := by
  have hread : readNatural? 16 [a, b] = some (16 * m + n) := by
    simp [readNatural?, (hexDigits_read _ ha).2.1, (hexDigits_read _ hb).2.1, ofDigits]
  rw [ofHex, hread, Option.getD_some, ← h, Char.ofNat_toNat]

theorem Inline.hexDigit {a : Char} {m : Nat} (hq : isQuote quote = true)
    (ha : (a, m) ∈ hexDigits) (h : Inline quote cs) : Inline quote (a :: cs) := by
  obtain ⟨-, -, hn, hb, hnone⟩ := hexDigits_read _ ha
  refine .plain ?_ hn hb h
  rintro rfl
  rw [hq] at hnone
  cases hnone

/-- A written character does not close the literal. -/
theorem Spelling.inline (hq : isQuote quote = true) (h : Spelling quote c text)
    (hcs : Inline quote cs) : Inline quote (text ++ cs) := by
  cases h with
  | verbatim hc hn hb => exact .plain hc hn hb hcs
  | escaped h =>
    refine .escaped ?_ hcs
    rintro rfl
    simp [isQuote] at h
  | letter h =>
    refine .escaped ?_ hcs
    rintro rfl
    simp [letters] at h
  | code ha hb => exact .escaped (by decide) (.hexDigit hq ha (.hexDigit hq hb hcs))

/-- A written character is decoded, whatever is written behind it. -/
theorem Spelling.unescape (h : Spelling quote c text) (cs : List Char) :
    unescape (text ++ cs) = c :: unescape cs := by
  cases h with
  | verbatim _ _ hb => exact unescape_cons_of_ne hb cs
  | escaped h =>
    simp only [isQuote, Bool.or_eq_true, beq_iff_eq] at h
    rcases h with rfl | rfl | rfl <;> simp [Quotation.unescape]
  | letter h =>
    simp only [letters, List.mem_cons, Prod.mk.injEq, List.not_mem_nil, or_false] at h
    rcases h with ⟨rfl, rfl⟩ | ⟨rfl, rfl⟩ | ⟨rfl, rfl⟩ | ⟨rfl, rfl⟩ <;>
      simp [Quotation.unescape]
  | code ha hb h =>
    simp [Quotation.unescape, (hexDigits_read _ ha).1, (hexDigits_read _ hb).1,
      ofHex_of_mem ha hb h]

theorem inline_of_spelled (hq : isQuote quote = true)
    (h : List.Forall₂ (Spelling quote) value pieces) : Inline quote pieces.flatten := by
  induction h with
  | nil => exact .nil
  | cons hc _ ih => exact hc.inline hq ih

theorem unescape_of_spelled (h : List.Forall₂ (Spelling quote) value pieces) :
    unescape pieces.flatten = value := by
  induction h with
  | nil => rfl
  | cons hc _ ih => rw [List.flatten_cons, hc.unescape, ih]

end Quotation

open Quotation

variable {quote : Char} {mark body value : List Char} {pieces : List (List Char)}

/-- A literal on one line is all of its source. -/
theorem tokens_inline (hlength : mark.length ≤ 1) (hmark : ∀ c ∈ mark, isMark c = true)
    (hq : isQuote quote = true) (inline : Inline quote body) {n : Nat}
    (hn : n = byteLength (line mark quote body)) (hshort : n < 2 ^ 32) (file : String) :
    ∃ ts, tokens (line mark quote body) file = .ok ts ∧ ts.map Token.placed =
      [(.string, String.ofList (if mark.any isRawMark then body else unescape body), 0, n),
        (.newline, "", n, n), (.endOfSource, "EOF", n, n)] := by
  have hread : length? (line mark quote body) = some (line mark quote body).length :=
    length?_line hlength hmark hq inline
  have hdecode : decode (line mark quote body) = _ :=
    decode_append mark hlength hmark (.line hq inline)
  obtain ⟨ts, hts, hplaced⟩ := Scanner.tokens_literal (hn ▸ hshort) hread file
  rw [hdecode, ← hn] at hplaced
  exact ⟨ts, hts, hplaced⟩

/-- Between two quotes every spelling of a text is decoded to it, and behind a raw mark all that
does not close the literal is kept as it is. -/
theorem tokens_spelled (hq : isQuote quote = true) (file : String) :
    (∀ mark ∈ [[], ['b'], ['B']], ∀ value pieces, List.Forall₂ (Spelling quote) value pieces →
      ∀ n, n = byteLength (line mark quote pieces.flatten) → n < 2 ^ 32 →
        ∃ ts, tokens (line mark quote pieces.flatten) file = .ok ts ∧
          ts.map Token.placed = [(.string, String.ofList value, 0, n), (.newline, "", n, n),
            (.endOfSource, "EOF", n, n)]) ∧
    ∀ mark ∈ [['r'], ['R']], ∀ body, Inline quote body →
      ∀ n, n = byteLength (line mark quote body) → n < 2 ^ 32 →
        ∃ ts, tokens (line mark quote body) file = .ok ts ∧
          ts.map Token.placed = [(.string, String.ofList body, 0, n), (.newline, "", n, n),
            (.endOfSource, "EOF", n, n)] := by
  refine ⟨fun mark hm value pieces h n hn hshort => ?_, fun mark hm body inline n hn hshort => ?_⟩
  · obtain ⟨hlength, hmark, hraw⟩ := mark_cases hm
    have hinline := tokens_inline hlength hmark hq (inline_of_spelled hq h) hn hshort file
    rw [hraw, unescape_of_spelled h] at hinline
    exact hinline
  · have hmark : mark.length ≤ 1 ∧ (∀ c ∈ mark, isMark c = true) ∧
        mark.any isRawMark = true := by
      simp only [List.mem_cons, List.not_mem_nil, or_false] at hm
      rcases hm with rfl | rfl <;> simp [isMark, isRawMark]
    have hinline := tokens_inline hmark.1 hmark.2.1 hq inline hn hshort file
    rw [hmark.2.2] at hinline
    exact hinline

/-- All four kinds of spelling, with the digits of codes in either case, and a raw literal that
keeps the backslash before a quote and before a code that lacks a digit. -/
theorem tokens_spelled_codes :
    isQuote '\x22' = true ∧ isQuote '\'' = true ∧
    (∃ ts, tokens "b\"\\x5C\\\"\\n\tß\\'\\xfF\"".toList "BUILD" = .ok ts ∧
      ts.map Token.placed = [(.string, "\\\"\n\tß'ÿ", 0, 20), (.newline, "", 20, 20),
        (.endOfSource, "EOF", 20, 20)]) ∧
    ∃ ts, tokens "R'\\'\\x4'".toList "BUILD" = .ok ts ∧
      ts.map Token.placed = [(.string, "\\'\\x4", 0, 8), (.newline, "", 8, 8),
        (.endOfSource, "EOF", 8, 8)] := by
  have spelled : List.Forall₂ (Spelling '\x22') "\\\"\n\tß'ÿ".toList
      (["\\x5C", "\\\"", "\\n", "\t", "ß", "\\'", "\\xfF"].map String.toList) :=
    .cons (.code (m := 5) (n := 12) (by decide) (by decide) rfl) <| .cons (.escaped (by decide)) <|
    .cons (.letter (by decide)) <|
    .cons (.verbatim (by decide) (by decide) (by decide)) <|
    .cons (.verbatim (by decide) (by decide) (by decide)) <| .cons (.escaped (by decide)) <|
    .cons (.code (m := 15) (n := 15) (by decide) (by decide) rfl) .nil
  have raw : Inline '\'' "\\'\\x4".toList :=
    .escaped (by decide) (.escaped (by decide)
      (.plain (by decide) (by decide) (by decide) .nil))
  exact ⟨rfl, rfl, (tokens_spelled rfl "BUILD").1 ['b'] (by decide) _ _ spelled 20 rfl (by decide),
    (tokens_spelled rfl "BUILD").2 ['R'] (by decide) _ raw 8 rfl (by decide)⟩

end BuildTyping
