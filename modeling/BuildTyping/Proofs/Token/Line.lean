import BuildTyping.Proofs.Token.Step

/-!
# Logical lines

The lines of a source that count for its layout are those that begin outside brackets and literals
and not behind a backslash, and that are not blank. They are told from the lexemes alone, and with
each lexeme that a scanner reads it passes those that begin up to there.
-/

namespace BuildTyping

open Scanner (indentation columnAfter isBlankLine)

/-- Where the first character behind the indentation of a line stands, and how wide the
indentation is. -/
structure LogicalLine where
  first : Nat
  width : Nat
  deriving DecidableEq, Repr

/-- The line that begins at the offset with this text. -/
def LogicalLine.ofText (offset : Nat) (rest : List Char) : LogicalLine :=
  ⟨offset + byteLength (indentation rest), columnAfter (indentation rest)⟩

theorem LogicalLine.first_ofText (offset : Nat) (rest : List Char) :
    (ofText offset rest).first = offset + (indentation rest).length := by
  rw [ofText, Scanner.byteLength_indentation]

/-- The line that begins at the offset, unless it is blank. -/
def lineAt (offset : Nat) (rest : List Char) : List LogicalLine :=
  if isBlankLine (rest.drop (indentation rest).length) then [] else [.ofText offset rest]

/-- The lines that begin after a place within a line. -/
def linesAfter (offset depth : Nat) (rest : List Char) : List LogicalLine :=
  match _h : Lexeme.next? rest with
  | none | some (.unterminated, _) => []
  | some (lexeme, n) =>
    let behind := offset + byteLength (rest.take n)
    (if lexeme = .lineEnd ∧ depth = 0 then lineAt behind (rest.drop n) else []) ++
      linesAfter behind (lexeme.depthAfter depth) (rest.drop n)
  termination_by rest.length
  decreasing_by
    have := Lexeme.next?_bounds _h
    simp only [List.length_drop]
    omega

/-- The lines of a source that count for its layout. -/
def logicalLines (source : List Char) : List LogicalLine := lineAt 0 source ++ linesAfter 0 0 source

/-- Lines in brackets, behind a backslash and without more than a comment do not count. -/
example : logicalLines "if x:\n\ty = [\n1]\n # z\n  z = \\\n 2\n".toList =
    [⟨0, 0⟩, ⟨7, 8⟩, ⟨23, 2⟩] := by decide +kernel

theorem le_first_of_mem_lineAt {offset : Nat} {rest : List Char} {l : LogicalLine}
    (h : l ∈ lineAt offset rest) : offset ≤ l.first := by
  rw [lineAt] at h
  split at h
  · simp at h
  · rw [List.mem_singleton.1 h]
    exact Nat.le_add_right ..

theorem le_first_of_mem_linesAfter {offset depth : Nat} {rest : List Char} {l : LogicalLine}
    (h : l ∈ linesAfter offset depth rest) : offset ≤ l.first := by
  fun_induction linesAfter offset depth rest with
  | case1 => simp at h
  | case2 => simp at h
  | case3 offset depth rest lexeme n hn _ behind ih =>
    have hle : offset ≤ behind := Nat.le_add_right ..
    rcases List.mem_append.1 h with h | h
    · split at h
      · exact Nat.le_trans hle (le_first_of_mem_lineAt h)
      · simp at h
    · exact Nat.le_trans hle (ih h)

namespace Scanner

variable {s s' : Scanner} {ts : List Token}

/-- The lines that begin further on than where the scanner stands. -/
def linesBehind (s : Scanner) : List LogicalLine := linesAfter s.offset s.brackets.length s.rest

/-- The lines that the scanner has still to open. -/
def lines (s : Scanner) : List LogicalLine :=
  (if s.atLineStart && s.brackets.isEmpty then lineAt s.offset s.rest else []) ++ s.linesBehind

theorem lines_start (source : List Char) (file : String) :
    (start source file).lines = logicalLines source := rfl

theorem le_first_of_mem_lines {l : LogicalLine} (h : l ∈ s.lines) : s.offset ≤ l.first := by
  rcases List.mem_append.1 h with h | h
  · split at h
    · exact le_first_of_mem_lineAt h
    · simp at h
  · exact le_first_of_mem_linesAfter h

theorem lines_of_within (h : s.atLineStart = false) : s.lines = s.linesBehind := by
  simp [lines, h]

/-- At the start of a line that is not blank that line comes first. -/
theorem lines_of_line (hstart : (s.atLineStart && s.brackets.isEmpty) = true)
    (hblank : isBlankLine (s.rest.drop (indentation s.rest).length) = false) :
    s.lines = .ofText s.offset s.rest :: s.linesBehind := by
  rw [lines, if_pos hstart, lineAt, hblank]
  rfl

theorem lines_nil (h : s.rest = []) : s.lines = [] := by
  have hbehind : s.linesBehind = [] := by
    rw [linesBehind, h, linesAfter]
    rfl
  rw [lines, hbehind, h]
  split <;> rfl

theorem isBlankLine_iff {cs : List Char} :
    isBlankLine cs = true ↔ ∀ c ∈ cs.head?, c = '\n' ∨ c = '\r' ∨ c = '#' := by
  cases cs <;> simp [isBlankLine, or_assoc]

/-- A line that is blank has no indentation left. -/
theorem indentation_of_isBlankLine {cs : List Char} (h : isBlankLine cs = true) :
    indentation cs = [] := by
  cases cs with
  | nil => rfl
  | cons c cs =>
    rcases isBlankLine_iff.1 h c rfl with rfl | rfl | rfl <;> rfl

/-- Nothing but a line end begins with a carriage return. -/
theorem lineEnd_of_return {cs : List Char} {lexeme : Lexeme} {n : Nat}
    (hn : Lexeme.next? ('\r' :: cs) = some (lexeme, n)) : lexeme = .lineEnd := by
  have hgap : Lexeme.gapLength ('\r' :: cs) = 0 := by
    simp [Lexeme.gapLength, Numeral.countWhile, Lexeme.isSpace]
  have hstring : Quotation.length? ('\r' :: cs) = none := by
    simp [Quotation.length?, Quotation.closedLength?, Quotation.markLength, Quotation.isMark,
      Quotation.isQuote]
  have hopens : Quotation.opens ('\r' :: cs) = false := by
    simp [Quotation.opens, Quotation.markLength, Quotation.isMark, Quotation.isQuote]
  have hnumber : Numeral.length ('\r' :: cs) = 0 := by
    simp [Numeral.length, Numeral.radixLength, Numeral.decimalLength, Numeral.countWhile,
      Char.isDigit]
  have hword : Lexeme.wordLength ('\r' :: cs) = 0 := by
    have hstart : Lexeme.isWordStart '\r' = false := by decide +kernel
    simp [Lexeme.wordLength, hstart]
  have hopening : Lexeme.opening? '\r' = none := by decide
  have hclosing : Lexeme.closing? '\r' = none := by decide
  have hsign : Lexeme.sign? ('\r' :: cs) = none := by simp [Lexeme.sign?, Sign.all, Sign.text]
  simp only [Lexeme.next?, hgap, hstring, hopens, hnumber, hword, hopening, hclosing, hsign] at hn
  split at hn
  · simp at *
  · split at hn
    · cases hn
      rfl
    · simp at hn

/-- The white space of a blank line is its indentation. -/
theorem countWhile_isSpace {cs : List Char}
    (hblank : isBlankLine (cs.drop (indentation cs).length) = true) :
    Numeral.countWhile Lexeme.isSpace cs = (indentation cs).length := by
  have hcs := indentation_append_drop cs
  have hspace : ∀ c ∈ indentation cs, Lexeme.isSpace c = true := fun c hc => by
    rcases blank_of_mem_indentation hc with rfl | rfl <;> rfl
  have hend : (cs.drop (indentation cs).length).takeWhile Lexeme.isSpace = [] := by
    cases hd : cs.drop (indentation cs).length with
    | nil => rfl
    | cons c ds =>
      rw [hd] at hblank
      rcases isBlankLine_iff.1 hblank c rfl with rfl | rfl | rfl <;> rfl
  rw [Numeral.countWhile, ← hcs, List.takeWhile_append_of_pos hspace, hcs, hend, List.append_nil]

/-- A lexeme of a blank line is its end, or a gap before what is still blank. -/
theorem next?_of_blank {cs : List Char} {lexeme : Lexeme} {n : Nat}
    (hblank : isBlankLine (cs.drop (indentation cs).length) = true)
    (hn : Lexeme.next? cs = some (lexeme, n)) :
    lexeme = .lineEnd ∨ lexeme = .gap ∧ isBlankLine (cs.drop n) = true := by
  by_cases hi : indentation cs = []
  · rw [hi, List.length_nil, List.drop_zero] at hblank
    cases cs with
    | nil => simp [Lexeme.next?] at hn
    | cons c cs =>
      rcases isBlankLine_iff.1 hblank c rfl with rfl | rfl | rfl
      · left
        simp only [Lexeme.next?, Lexeme.gapLength, Lexeme.lineEndLength, Numeral.countWhile] at hn
        cases hn
        rfl
      · exact .inl (lineEnd_of_return hn)
      · right
        simp only [Lexeme.next?, Lexeme.gapLength] at hn
        rw [if_pos (by omega)] at hn
        cases hn
        refine ⟨rfl, isBlankLine_iff.2 fun c hc => .inl ?_⟩
        rw [Nat.add_comm, List.drop_succ_cons, Numeral.drop_countWhile] at hc
        exact Lexeme.newline_of_mem_head? hc
  · obtain ⟨rfl, rfl⟩ := next?_of_indentation hn hi
    refine .inr ⟨rfl, ?_⟩
    rw [countWhile_isSpace hblank]
    exact hblank

namespace Passes

variable {lexeme : Lexeme} {n : Nat}

theorem linesBehind_eq (h : s.Passes lexeme n ts s') : s.linesBehind =
    (if lexeme = .lineEnd ∧ s.brackets.length = 0 then lineAt s'.offset s'.rest else []) ++
      s'.linesBehind := by
  rw [linesBehind, linesAfter]
  split
  · rename_i hn
    simp [h.next] at hn
  · rename_i hn
    rw [h.next, Option.some.injEq, Prod.mk.injEq] at hn
    exact absurd hn.1 h.closed
  · rename_i _ _ hn
    rw [h.next, Option.some.injEq, Prod.mk.injEq] at hn
    obtain ⟨rfl, rfl⟩ := hn
    rw [linesBehind, h.depth, h.skips.rest, h.skips.offset]

/-- Within a line a lexeme opens none. -/
theorem lines_of_within (h : s.Passes lexeme n ts s') (hs : s.atLineStart = false) :
    s'.lines = s.linesBehind := by
  rw [h.linesBehind_eq, lines, h.atLineStart, hs, Bool.false_or]
  by_cases hend : lexeme = .lineEnd ∧ s.brackets.length = 0
  · obtain ⟨rfl, hb⟩ := hend
    have hb' : s'.brackets.length = 0 := h.depth.trans hb
    rw [List.length_eq_zero_iff] at hb hb'
    simp [hb, hb']
  · have hstart : (lexeme = .lineEnd && s.brackets.isEmpty) = false := by
      simpa [List.length_eq_zero_iff] using hend
    rw [if_neg hend, hstart]
    rfl

/-- A line starts outside brackets. -/
theorem brackets_of_within (h : s.Passes lexeme n ts s') (hs : s.atLineStart = false)
    (hstart : s'.atLineStart = true) : s'.brackets = [] := by
  rw [h.atLineStart, hs, Bool.false_or, Bool.and_eq_true, decide_eq_true_eq,
    List.isEmpty_iff] at hstart
  obtain ⟨rfl, hb⟩ := hstart
  rw [← List.length_eq_zero_iff, h.depth, hb]
  rfl

/-- On a blank line a lexeme opens none either. -/
theorem lines_of_blank (h : s.Passes lexeme n ts s') (hs : s.atLineStart = true)
    (hb : s.brackets = []) (hblank : isBlankLine (s.rest.drop (indentation s.rest).length) = true) :
    s'.lines = s.lines ∧ s'.brackets = [] := by
  have hlexeme := next?_of_blank hblank h.next
  have hb' : s'.brackets = [] := by
    rw [← List.length_eq_zero_iff, h.depth, hb]
    rcases hlexeme with rfl | ⟨rfl, -⟩ <;> rfl
  have hat : lineAt s.offset s.rest = [] := by rw [lineAt, if_pos hblank]
  have hstart : s'.atLineStart = true := by rw [h.atLineStart, hs, Bool.true_or]
  refine ⟨?_, hb'⟩
  rcases hlexeme with rfl | ⟨rfl, hrest⟩
  · simp [lines, hs, hb, hstart, hb', hat, h.linesBehind_eq]
  · have hat' : lineAt s'.offset s'.rest = [] := by
      rw [lineAt, h.skips.rest, indentation_of_isBlankLine hrest, List.length_nil,
        List.drop_zero, if_pos hrest]
    simp [lines, hs, hb, hstart, hb', hat, hat', h.linesBehind_eq]

end Passes

end Scanner

end BuildTyping
