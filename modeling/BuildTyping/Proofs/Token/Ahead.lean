import BuildTyping.Proofs.Token.Lookahead
import BuildTyping.Proofs.Token.Step

/-!
# The text ahead of a scanner

Of the text ahead a step looks at the indentation and at the next lexeme. Another text behind them
leaves it as it is.
-/

namespace BuildTyping

namespace Scanner

variable {s s' : Scanner} {ts : List Token} {n : Nat} {w b x : List Char}

/-- Whether a line is blank shows on it. -/
theorem isBlankLine_append {cs : List Char} (h : cs ≠ []) (x : List Char) :
    isBlankLine (cs ++ x) = isBlankLine cs := by
  cases cs with
  | nil => simp at h
  | cons c cs => rfl

/-- The scanner with another text before it. -/
def facing (s : Scanner) (text : List Char) : Scanner := { s with rest := text }

@[simp] theorem rest_facing (s : Scanner) (text : List Char) : (s.facing text).rest = text := rfl
@[simp] theorem offset_facing (s : Scanner) (text : List Char) :
    (s.facing text).offset = s.offset := rfl
@[simp] theorem facing_facing (s : Scanner) (text other : List Char) :
    (s.facing text).facing other = s.facing other := rfl
@[simp] theorem facing_rest (s : Scanner) : s.facing s.rest = s := rfl

theorem openLine_facing (hlt : (indentation (w ++ b)).length < w.length)
    (h : (s.facing (w ++ b)).openLine = .ok (ts, s')) :
    (s.facing (w ++ x)).openLine = .ok (ts, s'.facing (w ++ x)) := by
  have hindent : indentation (w ++ x) = indentation (w ++ b) := takeWhile_of_lt hlt
  have hne : w.drop (indentation (w ++ b)).length ≠ [] := by
    apply List.ne_nil_of_length_pos
    rw [List.length_drop]
    omega
  have hblank (y : List Char) : isBlankLine ((w ++ y).drop (indentation (w ++ b)).length)
      = isBlankLine (w.drop (indentation (w ++ b)).length) := by
    rw [List.drop_append_of_le_length (Nat.le_of_lt hlt)]
    exact isBlankLine_append hne y
  simp only [facing] at h ⊢
  simp only [openLine, hindent, hblank] at h ⊢
  by_cases hb : isBlankLine (w.drop (indentation (w ++ b)).length) = true
  · rw [if_pos hb] at h ⊢
    cases h
    rfl
  · rw [if_neg hb] at h ⊢
    by_cases hi : s.blocks.headD 0 < columnAfter (indentation (w ++ b))
    · rw [if_pos hi] at h ⊢
      cases h
      rfl
    · rw [if_neg hi] at h ⊢
      by_cases hd : (s.blocks.dropWhile (columnAfter (indentation (w ++ b)) < ·)).headD 0
          = columnAfter (indentation (w ++ b))
      · rw [if_pos hd] at h ⊢
        cases h
        rfl
      · rw [if_neg hd] at h
        simp at h

theorem readLexeme_facing {lexeme : Lexeme} (hn : Lexeme.next? (w ++ b) = some (lexeme, n))
    (hn' : Lexeme.next? (w ++ x) = some (lexeme, n)) (hle : n ≤ w.length)
    (h : (s.facing (w ++ b)).readLexeme = .ok (ts, s')) :
    (s.facing (w ++ x)).readLexeme = .ok (ts, s'.facing (w.drop n ++ x)) := by
  have htake (y : List Char) : (w ++ y).take n = w.take n := List.take_append_of_le_length hle
  have hdrop (y : List Char) : (w ++ y).drop n = w.drop n ++ y :=
    List.drop_append_of_le_length hle
  simp only [readLexeme, facing, hn] at h
  simp only [readLexeme, facing, hn']
  simp only [emit, skip, endLine, layout, spanFrom, position, htake, hdrop] at h ⊢
  cases lexeme with
  | gap | string | number | word | opening | sign =>
    cases h
    rfl
  | unterminated => simp at h
  | lineEnd =>
    cases hb : s.brackets.isEmpty <;>
      · simp only [hb] at h ⊢
        cases h
        rfl
  | closing b =>
    simp only at h ⊢
    split at h
    · rename_i hb
      cases h
      rw [if_pos hb]
    · simp at h

/-- A step that ends before a place is the same whatever stands behind the place, if it reads the
same lexeme. -/
theorem step_facing {lexeme : Lexeme} (hn : Lexeme.next? (w ++ b) = some (lexeme, n))
    (hn' : Lexeme.next? (w ++ x) = some (lexeme, n)) (hle : n ≤ w.length)
    (hgap : lexeme = .gap → n < w.length) (h : (s.facing (w ++ b)).step = .ok (ts, s')) :
    (s.facing (w ++ x)).step = .ok (ts, s'.facing (w.drop n ++ x)) := by
  rcases step_ok.1 h with ⟨hc, layout, mid, us, ho, hr, rfl⟩ | ⟨hc, hr⟩
  · have hlt : (indentation (w ++ b)).length < w.length := by
      by_cases hi : indentation (w ++ b) = []
      · rw [hi, List.length_nil]
        exact Nat.lt_of_lt_of_le (Lexeme.next?_bounds hn).1 hle
      · obtain ⟨rfl, rfl⟩ := next?_of_indentation hn hi
        exact Nat.lt_of_le_of_lt (indentation_le_countWhile _) (hgap rfl)
    have hmid : mid = mid.facing (w ++ b) := by
      have hrest := rest_openLine ho
      rw [rest_facing] at hrest
      rw [← hrest, facing_rest]
    rw [hmid] at hr
    exact step_ok.2 (.inl ⟨hc, layout, mid.facing (w ++ x), us, openLine_facing hlt ho,
      readLexeme_facing hn hn' hle hr, rfl⟩)
  · exact step_ok.2 (.inr ⟨hc, readLexeme_facing hn hn' hle hr⟩)

end Scanner

end BuildTyping
