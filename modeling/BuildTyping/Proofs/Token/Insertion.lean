import BuildTyping.Proofs.Token.Arrival

/-!
# Trivia is invisible

Trivia that is put in between the tokens of a source moves the tokens behind it and changes nothing
else. Where it stands, a scanner comes to what follows with everything but its offset as it was.
-/

namespace BuildTyping

namespace Position

/-- The position so many bytes further on. -/
def shift (k : Nat) (p : Position) : Position := .ofOffset (p.offset + k) p.file

@[simp] theorem shift_ofOffset (k offset : Nat) (file : String) :
    (ofOffset offset file).shift k = ofOffset (offset + k) file := by
  simp only [shift, Position.offset, ofOffset, UInt32.ofNat_add, UInt32.ofNat_toNat]

end Position

/-- The token so many bytes further on. -/
def Token.shift (k : Nat) (t : Token) : Token :=
  { t with span := ⟨t.span.start.shift k, t.span.stop.shift k⟩ }

/-- The token as it is when `k` bytes are put in at the offset. -/
def Token.moved (offset k : Nat) (t : Token) : Token :=
  if offset ≤ t.span.start.offset then t.shift k else t

/-- Spaces, tabs, form feeds and line ends behind a backslash. -/
inductive Joints : List Char → Prop where
  | nil : Joints []
  | space {c : Char} {more : List Char} (hc : c = ' ' ∨ c = '\t' ∨ c = '\x0c')
      (joints : Joints more) : Joints (c :: more)
  | joined {eol more : List Char} (heol : IsLineEnd eol) (joints : Joints more) :
      Joints ('\\' :: eol ++ more)

/-- A line of spaces and tabs, with a comment or without, and its line end. -/
inductive BlankLine : List Char → Prop where
  | lineEnd {eol : List Char} (heol : IsLineEnd eol) : BlankLine eol
  | comment {text eol : List Char} (htext : '\n' ∉ text) (heol : IsLineEnd eol) :
      BlankLine ('#' :: text ++ eol)
  | blank {c : Char} {more : List Char} (hc : c = ' ' ∨ c = '\t') (line : BlankLine more) :
      BlankLine (c :: more)

theorem Joints.of_spaces {gap : List Char} (h : ∀ c ∈ gap, c = ' ' ∨ c = '\t' ∨ c = '\x0c') :
    Joints gap := by
  induction gap with
  | nil => exact .nil
  | cons c gap ih => exact .space (h c (by simp)) (ih fun d hd => h d (by simp [hd]))

theorem IsLineEnd.stops {eol : List Char} (h : IsLineEnd eol) : Stops eol := by
  rcases h with rfl | rfl
  · exact .cons (by decide) []
  · exact .cons (by decide) ['\n']

theorem Joints.stops {gap : List Char} (h : Joints gap) : Stops gap := by
  cases h with
  | nil => simp [Stops]
  | space hc => exact .cons (by rcases hc with rfl | rfl | rfl <;> decide) _
  | joined => exact .cons (by decide) _

theorem BlankLine.stops {line : List Char} (h : BlankLine line) : Stops line := by
  cases h with
  | lineEnd heol => exact heol.stops
  | comment => exact .cons (by decide) _
  | blank hc => exact .cons (by rcases hc with rfl | rfl <;> decide) _

theorem Trivia.stops {gap rest : List Char} (h : Trivia rest gap) : Stops gap := by
  cases h with
  | nil => simp [Stops]
  | space hc => exact .cons (by rcases hc with rfl | rfl | rfl <;> decide) _
  | comment => exact .cons (by decide) _
  | joined => exact .cons (by decide) _
  | @lineEnd eol more heol =>
    apply heol.stops.append
    rcases heol with rfl | rfl <;> simp

namespace Scanner

variable {s s' : Scanner} {ts : List Token} {b : List Char} {n k : Nat}

/-- The scanner so many bytes further on. -/
def shift (k : Nat) (s : Scanner) : Scanner := { s with offset := s.offset + k }

theorem shift_shift (j k : Nat) (s : Scanner) : (s.shift j).shift k = s.shift (j + k) := by
  simp [shift, Nat.add_assoc]

theorem skip_shift (k n : Nat) (s : Scanner) : (s.shift k).skip n = (s.skip n).shift k := by
  simp [shift, skip, Nat.add_right_comm]

theorem openLine_shift (h : s.openLine = .ok (ts, s')) (k : Nat) :
    (s.shift k).openLine = .ok (ts.map (Token.shift k), s'.shift k) := by
  simp only [shift]
  simp only [openLine] at h ⊢
  by_cases hb : isBlankLine (s.rest.drop (indentation s.rest).length) = true
  · rw [if_pos hb] at h ⊢
    cases h
    rfl
  · rw [if_neg hb] at h ⊢
    by_cases hi : s.blocks.headD 0 < columnAfter (indentation s.rest)
    · rw [if_pos hi] at h ⊢
      cases h
      simp [layout, spanFrom, position, Token.layout, Token.shift, Nat.add_right_comm]
    · rw [if_neg hi] at h ⊢
      by_cases hd : (s.blocks.dropWhile (columnAfter (indentation s.rest) < ·)).headD 0
          = columnAfter (indentation s.rest)
      · rw [if_pos hd] at h ⊢
        cases h
        simp [layout, spanFrom, position, Token.layout, Token.shift, Nat.add_right_comm]
      · rw [if_neg hd] at h
        simp at h

theorem emit_shift (kind : TokenKind) (value : List Char) (n k : Nat) (s : Scanner) :
    (s.shift k).emit kind value n =
      ((s.emit kind value n).1.map (Token.shift k), (s.emit kind value n).2.shift k) := by
  simp [emit, skip, shift, spanFrom, position, Token.shift, Nat.add_right_comm]

theorem endLine_shift (n k : Nat) (s : Scanner) : (s.shift k).endLine n =
    ((s.endLine n).1.map (Token.shift k), (s.endLine n).2.shift k) := by
  cases hb : s.brackets with
  | nil =>
    cases hl : s.lineOpen with
    | false => simp [endLine, shift, skip, hb, hl, Nat.add_right_comm]
    | true =>
      simp [endLine, shift, skip, hb, hl, layout, spanFrom, position, Token.layout, Token.shift,
        Nat.add_right_comm]
  | cons bracket brackets => simp [endLine, shift, skip, hb, Nat.add_right_comm]

theorem readLexeme_shift (h : s.readLexeme = .ok (ts, s')) (k : Nat) :
    (s.shift k).readLexeme = .ok (ts.map (Token.shift k), s'.shift k) := by
  have hrest : (s.shift k).rest = s.rest := rfl
  simp only [readLexeme] at h ⊢
  rw [hrest]
  cases hn : Lexeme.next? s.rest with
  | none => simp [hn] at h
  | some next =>
    obtain ⟨lexeme, n⟩ := next
    simp only [hn] at h
    cases lexeme with
    | gap =>
      cases h
      exact congrArg (fun s' => Except.ok ([], s')) (skip_shift k n s)
    | lineEnd =>
      simp only [Except.ok.injEq] at h
      simp only [endLine_shift, h]
    | unterminated => simp at h
    | string | number | word | sign =>
      cases h
      exact congrArg Except.ok (emit_shift ..)
    | opening bracket =>
      cases h
      exact congrArg Except.ok (emit_shift _ _ _ _ { s with brackets := bracket :: s.brackets })
    | closing bracket =>
      simp only at h ⊢
      split at h
      · rename_i hb
        cases h
        exact (if_pos hb).trans
          (congrArg Except.ok (emit_shift _ _ _ _ { s with brackets := s.brackets.tail }))
      · simp at h

theorem step_shift (h : s.step = .ok (ts, s')) (k : Nat) :
    (s.shift k).step = .ok (ts.map (Token.shift k), s'.shift k) := by
  rcases step_ok.1 h with ⟨hc, layout, mid, us, ho, hr, rfl⟩ | ⟨hc, hr⟩
  · refine step_ok.2 (.inl ⟨hc, _, _, _, openLine_shift ho k, readLexeme_shift hr k, ?_⟩)
    exact List.map_append
  · exact step_ok.2 (.inr ⟨hc, readLexeme_shift hr k⟩)

theorem finish_shift (k : Nat) (s : Scanner) :
    (s.shift k).finish = s.finish.map (Token.shift k) := by
  cases hl : s.lineOpen with
  | false =>
    simp [finish, shift, hl, layout, spanFrom, position, Token.layout, Token.endAt, Token.shift]
  | true =>
    simp [finish, shift, hl, layout, spanFrom, position, Token.layout, Token.endAt, Token.shift]

/-- Further on in a source the tokens are further on. -/
theorem run_shift (h : s.run = .ok ts) (k : Nat) :
    (s.shift k).run = .ok (ts.map (Token.shift k)) := by
  induction h using run_induction with
  | finish s hr =>
    have hr' : (s.shift k).rest = [] := hr
    rw [run_nil hr', finish_shift]
  | step s first s' more hr hstep hrun ih =>
    have hr' : (s.shift k).rest ≠ [] := hr
    exact (run_ok hr').2 ⟨_, _, _, step_shift hstep k, ih, List.map_append⟩

end Scanner

namespace Lexeme

open Numeral (countWhile countWhile_cons countWhile_of_forall)

variable {c : Char} {cs eol rest : List Char}

theorem next?_of_gapLength (h : 0 < gapLength cs) : next? cs = some (gap, gapLength cs) := by
  cases cs with
  | nil => simp [gapLength, countWhile] at h
  | cons c cs =>
    simp only [next?]
    rw [if_pos h]

/-- White space is read up to its end. -/
theorem gapLength_of_space (cs : List Char) (hc : isSpace c = true) :
    gapLength (c :: cs) = countWhile isSpace cs + 1 := by
  have hb : c ≠ '\\' := by
    rintro rfl
    simp [isSpace] at hc
  have hh : c ≠ '#' := by
    rintro rfl
    simp [isSpace] at hc
  rw [gapLength_of_ne _ hb hh, countWhile_cons, if_pos hc]

theorem lineEndLength_of_isLineEnd (h : IsLineEnd eol) (rest : List Char) :
    lineEndLength (eol ++ rest) = eol.length := by
  rcases h with rfl | rfl <;> rfl

/-- A comment is read up to the end of its line. -/
theorem next?_of_comment {text : List Char} (htext : '\n' ∉ text)
    (hrest : ∀ c ∈ rest.head?, c = '\n') :
    next? ('#' :: text ++ rest) = some (gap, ('#' :: text).length) := by
  have hlength : gapLength ('#' :: text ++ rest) = ('#' :: text).length := by
    have hcount : countWhile (· != '\n') (text ++ rest) = text.length := by
      apply countWhile_of_forall
      · intro c hc
        have hne : c ≠ '\n' := by
          rintro rfl
          exact htext hc
        simpa using hne
      · intro c hc
        simp [hrest c hc]
    rw [List.cons_append, gapLength_hash, hcount, List.length_cons, Nat.add_comm]
  rw [next?_of_gapLength (by rw [hlength]; exact Nat.succ_pos _), hlength]

/-- A backslash joins the next line. -/
theorem next?_of_joined (heol : IsLineEnd eol) (rest : List Char) :
    next? ('\\' :: eol ++ rest) = some (gap, ('\\' :: eol).length) := by
  have hpos : 0 < eol.length := by
    rcases heol with rfl | rfl <;> simp
  have hlength : gapLength ('\\' :: eol ++ rest) = ('\\' :: eol).length := by
    rw [List.cons_append, gapLength_backslash, lineEndLength_of_isLineEnd heol, if_pos hpos,
      List.length_cons, Nat.add_comm]
  rw [next?_of_gapLength (by rw [hlength]; exact Nat.succ_pos _), hlength]

theorem next?_of_isLineEnd (heol : IsLineEnd eol) (rest : List Char) :
    next? (eol ++ rest) = some (lineEnd, eol.length) := by
  have hpos : 0 < lineEndLength (eol ++ rest) := by
    rw [lineEndLength_of_isLineEnd heol]
    rcases heol with rfl | rfl <;> simp
  have hne : eol ≠ [] := by
    rcases heol with rfl | rfl <;> simp
  have hgap : gapLength (eol ++ rest) = 0 := gapLength_of_lineEnd hpos hne
  obtain ⟨c, cs, rfl⟩ := List.exists_cons_of_ne_nil hne
  rw [List.cons_append] at hgap hpos ⊢
  simp only [next?, hgap, Nat.lt_irrefl, if_false]
  rw [if_pos hpos, ← List.cons_append, lineEndLength_of_isLineEnd heol]

end Lexeme

namespace Scanner

variable {s s' : Scanner} {ts : List Token} {b gap rest : List Char} {c : Char} {n k : Nat}

/-- No line is opened before the next lexeme is read. -/
def Reading (s : Scanner) : Prop := s.step = s.readLexeme

theorem reading_of_within (h : s.atLineStart = false) : s.Reading := by
  simp [Reading, step, h]

/-- Where a line opens without a token the step is that of the lexeme. -/
theorem step_of_openLine (hc : (s.atLineStart && s.brackets.isEmpty) = true)
    (ho : s.openLine = .ok ([], s')) : s.step = s'.readLexeme := by
  simp only [step, hc, if_true, ho, bind, Except.bind]
  cases s'.readLexeme with
  | error fault => rfl
  | ok after => rfl

theorem reading_of_blank (h : isBlankLine (s.rest.drop (indentation s.rest).length) = true) :
    s.Reading := by
  have ho : s.openLine = .ok ([], s) := by
    simp only [openLine]
    rw [if_pos h]
  cases hc : s.atLineStart && s.brackets.isEmpty with
  | false => simp [Reading, step, hc]
  | true => exact step_of_openLine hc ho

/-- A step without a token leaves the run to the steps behind it. -/
theorem run_of_silent (h : s.step = .ok ([], s')) : s.run = s'.run := by
  rw [run_step (rest_ne_nil_of_step h), h]
  cases hrun : s'.run with
  | error fault => simp [hrun, Except.map]
  | ok more => simp [hrun, Except.map]

theorem run_of_gap (hread : s.Reading) (hn : Lexeme.next? s.rest = some (.gap, n)) :
    s.run = (s.skip n).run := by
  apply run_of_silent
  rw [hread, readLexeme, hn]

/-- What is skipped before the rest of the source. -/
theorem skip_append (s : Scanner) (gap rest : List Char) :
    (s.facing (gap ++ rest)).skip gap.length = (s.facing rest).shift (byteLength gap) := by
  simp [skip, facing, shift]

/-- A text is unseen before the rest of the source if the scanner only comes further on. -/
def Unseen (s : Scanner) (gap rest : List Char) : Prop :=
  (s.facing (gap ++ rest)).run = ((s.facing rest).shift (byteLength gap)).run

theorem Unseen.append {more : List Char} (h : s.Unseen gap (more ++ rest))
    (hmore : (s.shift (byteLength gap)).Unseen more rest) : s.Unseen (gap ++ more) rest := by
  rw [Unseen, List.append_assoc, byteLength_append, ← shift_shift]
  exact h.trans hmore

/-- A gap before the rest of the source. -/
theorem unseen_gap (hread : (s.facing (gap ++ rest)).Reading)
    (hn : Lexeme.next? (gap ++ rest) = some (.gap, gap.length)) : s.Unseen gap rest := by
  rw [Unseen, run_of_gap hread hn, skip_append]

theorem utf8Size_of_isSpace (h : Lexeme.isSpace c = true) : c.utf8Size = 1 := by
  simp only [Lexeme.isSpace, Bool.or_eq_true, beq_iff_eq] at h
  rcases h with (rfl | rfl) | rfl <;> rfl

/-- White space before the rest of the source. The rest may begin with white space too, which is
then skipped with it. -/
theorem unseen_space (hc : Lexeme.isSpace c = true) (hread : (s.facing (c :: rest)).Reading)
    (hread' : ((s.facing rest).shift 1).Reading) : s.Unseen [c] rest := by
  have hlength := Lexeme.gapLength_of_space rest hc
  have hn : Lexeme.next? (c :: rest) = some (.gap, Numeral.countWhile Lexeme.isSpace rest + 1) := by
    rw [Lexeme.next?_of_gapLength (by omega), hlength]
  have hskip (k : Nat) :
      (s.facing (c :: rest)).skip (k + 1) = ((s.facing rest).shift 1).skip k := by
    simp [skip, facing, shift, utf8Size_of_isSpace hc, Nat.add_assoc]
  rw [Unseen, List.singleton_append, byteLength_cons, byteLength_nil, utf8Size_of_isSpace hc,
    run_of_gap hread hn, hskip]
  by_cases hk : Numeral.countWhile Lexeme.isSpace rest = 0
  · rw [hk]
    simp [skip]
  · have hrest : Lexeme.gapLength rest = Numeral.countWhile Lexeme.isSpace rest := by
      cases rest with
      | nil => exact absurd rfl hk
      | cons d rest =>
        rw [Numeral.countWhile_cons] at hk ⊢
        by_cases hd : Lexeme.isSpace d = true
        · rw [if_pos hd, Lexeme.gapLength_of_space rest hd]
        · rw [if_neg hd] at hk
          exact absurd rfl hk
    have hn' : Lexeme.next? rest = some (.gap, Numeral.countWhile Lexeme.isSpace rest) := by
      rw [Lexeme.next?_of_gapLength (by omega), hrest]
    rw [run_of_gap hread' hn']

theorem isSpace_of_trivia (h : c = ' ' ∨ c = '\t' ∨ c = '\x0c') : Lexeme.isSpace c = true := by
  rcases h with rfl | rfl | rfl <;> rfl

/-- White space within a line. -/
theorem unseen_space_within (hc : c = ' ' ∨ c = '\t' ∨ c = '\x0c') (hs : s.atLineStart = false)
    (rest : List Char) : s.Unseen [c] rest :=
  unseen_space (isSpace_of_trivia hc) (reading_of_within hs) (reading_of_within hs)

/-- A line end behind a backslash within a line. -/
theorem unseen_joined_within {eol : List Char} (heol : IsLineEnd eol) (hs : s.atLineStart = false)
    (rest : List Char) : s.Unseen ('\\' :: eol) rest :=
  unseen_gap (reading_of_within hs) (Lexeme.next?_of_joined heol rest)

/-- A line end in brackets. -/
theorem unseen_lineEnd {eol : List Char} (heol : IsLineEnd eol) (hs : s.atLineStart = false)
    (hb : s.brackets ≠ []) (rest : List Char) : s.Unseen eol rest := by
  have hread : (s.facing (eol ++ rest)).Reading := reading_of_within hs
  have hempty : s.brackets.isEmpty = false := by
    rw [← Bool.not_eq_true, List.isEmpty_iff]
    exact hb
  rw [Unseen, ← skip_append]
  apply run_of_silent
  rw [hread, readLexeme, rest_facing, Lexeme.next?_of_isLineEnd heol]
  simp [endLine, facing, hempty]

/-- Within a line blanks and line ends behind a backslash are invisible. -/
theorem unseen_joints (h : Joints gap) (hs : s.atLineStart = false) (b : List Char) :
    s.Unseen gap b := by
  induction h generalizing s with
  | nil => rfl
  | @space c more hc _ ih => exact (unseen_space_within hc hs (more ++ b)).append (ih hs)
  | @joined eol more heol _ ih => exact (unseen_joined_within heol hs (more ++ b)).append (ih hs)

/-- In brackets trivia is invisible. -/
theorem unseen_trivia (h : Trivia b gap) (hs : s.atLineStart = false) (hb : s.brackets ≠ []) :
    s.Unseen gap b := by
  induction h generalizing s with
  | nil => rfl
  | @space c more hc _ ih => exact (unseen_space_within hc hs (more ++ b)).append (ih hs hb)
  | @comment text more htext ends _ ih =>
    have hcomment : s.Unseen ('#' :: text) (more ++ b) :=
      unseen_gap (reading_of_within hs) (Lexeme.next?_of_comment htext ends)
    exact hcomment.append (ih hs hb)
  | @joined eol more heol _ ih =>
    exact (unseen_joined_within heol hs (more ++ b)).append (ih hs hb)
  | @lineEnd eol more heol _ ih => exact (unseen_lineEnd heol hs hb (more ++ b)).append (ih hs hb)

theorem isBlankLine_of_blankLine (h : BlankLine gap) (b : List Char) :
    isBlankLine ((gap ++ b).drop (indentation (gap ++ b)).length) = true := by
  induction h with
  | lineEnd heol => rcases heol with rfl | rfl <;> rfl
  | comment => rfl
  | @blank c more hc _ ih =>
    have htest : (c == ' ' || c == '\t') = true := by simpa using hc
    simp only [indentation, List.cons_append, List.takeWhile_cons, htest, if_true,
      List.length_cons, List.drop_succ_cons] at ih ⊢
    exact ih

/-- The end of a line without tokens. -/
theorem unseen_blank_lineEnd {eol : List Char} (heol : IsLineEnd eol) (hs : s.atLineStart = true)
    (hb : s.brackets = []) (hl : s.lineOpen = false) (rest : List Char) : s.Unseen eol rest := by
  have hread : (s.facing (eol ++ rest)).Reading :=
    reading_of_blank (isBlankLine_of_blankLine (.lineEnd heol) rest)
  rw [Unseen, ← skip_append]
  apply run_of_silent
  rw [hread, readLexeme, rest_facing, Lexeme.next?_of_isLineEnd heol]
  simp [endLine, facing, skip, hs, hb, hl]

/-- At the start of a line a blank line is invisible. -/
theorem unseen_blankLine (h : BlankLine gap) (hs : s.atLineStart = true) (hb : s.brackets = [])
    (hl : s.lineOpen = false) (b : List Char) : s.Unseen gap b := by
  induction h generalizing s with
  | lineEnd heol => exact unseen_blank_lineEnd heol hs hb hl b
  | @comment text eol htext heol =>
    -- a carriage return before the line feed belongs to the comment
    have key (text : List Char) (htext : '\n' ∉ text) : s.Unseen ('#' :: text ++ ['\n']) b := by
      have hblank := isBlankLine_of_blankLine (.comment htext (.inl rfl)) b
      rw [List.append_assoc] at hblank
      have hcomment : s.Unseen ('#' :: text) (['\n'] ++ b) :=
        unseen_gap (reading_of_blank hblank) (Lexeme.next?_of_comment htext (by simp))
      exact hcomment.append (unseen_blank_lineEnd (s := s.shift _) (.inl rfl) hs hb hl b)
    rcases heol with rfl | rfl
    · exact key text htext
    · have hreturn := key (text ++ ['\r']) (by simpa using htext)
      simpa using hreturn
  | @blank c more hc line ih =>
    have hspace : Lexeme.isSpace c = true := by
      rcases hc with rfl | rfl <;> rfl
    have hread : (s.facing (c :: (more ++ b))).Reading :=
      reading_of_blank (isBlankLine_of_blankLine (.blank hc line) b)
    have hread' : ((s.facing (more ++ b)).shift 1).Reading :=
      reading_of_blank (isBlankLine_of_blankLine line b)
    exact (unseen_space hspace hread hread').append (ih hs hb hl)

/-- Tokens before a place stay where they are, and those behind it move. -/
theorem map_moved {us vs : List Token} {offset : Nat} (hus : ∀ t ∈ us, t.span.start.offset < offset)
    (hvs : ∀ t ∈ vs, offset ≤ t.span.start.offset) (k : Nat) :
    (us ++ vs).map (Token.moved offset k) = us ++ vs.map (Token.shift k) := by
  have hleft : us.map (Token.moved offset k) = us.map id := by
    apply List.map_congr_left
    intro t ht
    exact if_neg (Nat.not_le.2 (hus t ht))
  have hright : vs.map (Token.moved offset k) = vs.map (Token.shift k) := by
    apply List.map_congr_left
    intro t ht
    exact if_pos (hvs t ht)
  rw [List.map_append, hleft, hright, List.map_id]

/-- What is invisible where a scanner comes to moves only the tokens that are emitted later. -/
theorem insert {us vs : List Token} {a ins : List Char} {file : String} {m : Scanner}
    (hshort : byteLength (a ++ b) < 2 ^ 32) (harrive : Arrives (start (a ++ b) file) us m)
    (hrun : m.run = .ok vs) (hd : Detached (us ++ vs)) (hm : m.offset = byteLength a)
    (hstops : Stops ins) (hins : m.Unseen ins b) :
    (start (a ++ ins ++ b) file).run =
      .ok ((us ++ vs).map (Token.moved (byteLength a) (byteLength ins))) := by
  have hat := harrive.reaches.stands (.start hshort file)
  have hrest : m.rest = b := hat.rest_eq rfl hm
  have hbehind : ∀ t ∈ vs, byteLength a ≤ t.span.start.offset := by
    intro t ht
    rw [← hm]
    exact (run_fills hat hrun).1.tiles.le_of_mem ht
  rw [map_moved (hm ▸ harrive.start_lt) hbehind]
  have hface : m.facing b = m := by rw [← hrest, facing_rest]
  have hrun' : (m.facing (ins ++ b)).run = .ok (vs.map (Token.shift (byteLength ins))) := by
    rw [hins, hface]
    exact run_shift hrun (byteLength ins)
  have harrive' : Arrives (start (a ++ (ins ++ b)) file) us (m.facing (ins ++ b)) := by
    by_cases hne : ins = []
    · rw [hne, List.nil_append, hface]
      exact harrive
    · refine harrive.facing (hstops.append hne b) ?_ (harrive.reaches.run_ok hrun) hd
      rw [hrest]
      rfl
  rw [List.append_assoc]
  exact harrive'.reaches.run_ok hrun'

end Scanner

/-- What may be put in between two parts of a source with these tokens. -/
inductive Insertable (a b : List Char) (ts : List Token) : List Char → Prop where
  /-- At the start of a line a blank line. -/
  | line {ins : List Char} (starts : byteLength a ∈ lineStarts (a ++ b)) (blank : BlankLine ins) :
      Insertable a b ts ins
  /-- Behind a token in brackets that are closed later any trivia. -/
  | bracketed {before after : List Token} {t : Token} {ins : List Char}
      (tokens : ts = before ++ t :: after) (stop : t.span.stop.offset = byteLength a)
      (opened : 0 < depthAfter 0 (before ++ [t]))
      (closed : ∃ u ∈ after, ∃ bracket, u.kind = .closing bracket) (trivia : Trivia b ins) :
      Insertable a b ts ins
  /-- Behind any token but layout, whatever comes next, blanks and line ends behind a backslash. -/
  | within {before after : List Token} {t : Token} {ins : List Char}
      (tokens : ts = before ++ t :: after) (stop : t.span.stop.offset = byteLength a)
      (solid : t.kind.isSolid = true) (joints : Joints ins) : Insertable a b ts ins

/-- A token that is moved within a source keeps its distance from the end. -/
theorem Token.offsets_moved {t : Token} {offset k length : Nat} (hshort : length + k < 2 ^ 32)
    (hle : t.span.start.offset ≤ t.span.stop.offset) (hstop : t.span.stop.offset ≤ length) :
    (t.moved offset k).span.offsets =
      if offset ≤ t.span.start.offset then (t.span.start.offset + k, t.span.stop.offset + k)
      else t.span.offsets := by
  have hend : t.span.stop.offset + k < 2 ^ 32 := by omega
  have hbegin : t.span.start.offset + k < 2 ^ 32 := by omega
  rw [Token.moved]
  split
  · rw [Span.offsets, Token.shift, Position.shift, Position.shift,
      Position.offset_ofOffset hbegin, Position.offset_ofOffset hend]
  · rfl

/-- Trivia is invisible: where it may be put in, the tokens keep their kinds and values, and those
behind it are as many bytes further on as it has. -/
theorem tokens_insert {a b ins : List Char} {file : String} {ts : List Token}
    (hshort : byteLength (a ++ ins ++ b) < 2 ^ 32) (h : tokens (a ++ b) file = .ok ts)
    (hd : Detached ts) (hi : Insertable a b ts ins) :
    tokens (a ++ ins ++ b) file =
      .ok (ts.map (Token.moved (byteLength a) (byteLength ins))) ∧
    ∀ t ∈ ts, (t.moved (byteLength a) (byteLength ins)).span.offsets =
      if byteLength a ≤ t.span.start.offset then
        (t.span.start.offset + byteLength ins, t.span.stop.offset + byteLength ins)
      else t.span.offsets := by
  have hlength : byteLength (a ++ ins ++ b) = byteLength (a ++ b) + byteLength ins := by
    simp only [byteLength_append, Nat.add_right_comm]
  have hsource : byteLength (a ++ b) < 2 ^ 32 := by omega
  have htiles := (tokens_tile hsource h).1
  refine ⟨?_, fun t ht => Token.offsets_moved (hlength ▸ hshort) (htiles.fits_of_mem ht).le
    (htiles.stop_le ht)⟩
  have hstart : (Scanner.start (a ++ b) file).atLineStart = true →
      (Scanner.start (a ++ b) file).brackets = [] := fun _ => rfl
  have hat : (Scanner.start (a ++ b) file).At (a ++ b) := .start hsource file
  cases hi with
  | line starts blank =>
    rcases List.mem_cons.1 starts with hzero | hline
    · have hins := Scanner.unseen_blankLine (s := .start (a ++ b) file) blank rfl rfl rfl b
      exact Scanner.insert hsource (.here _) h hd hzero.symm blank.stops hins
    · obtain ⟨us, m, vs, rfl, harrive, -, hrun, hm, hline, hb, hopen⟩ :=
        Scanner.arrives_line (s := .start (a ++ b) file) h hline
      have hins := Scanner.unseen_blankLine blank hline hb hopen b
      exact Scanner.insert hsource harrive hrun hd hm blank.stops hins
  | @bracketed before after t _ htokens stop opened closed trivia =>
    subst htokens
    obtain ⟨u, hu, bracket, hkind⟩ := closed
    have hsolid : t.kind.isSolid = true :=
      Scanner.isSolid_of_depth (s := .start (a ++ b) file) h opened ⟨u, hu, by simp [hkind]⟩
    obtain ⟨m, harrive, -, hrun, hm, hline⟩ := Scanner.arrives_at hat hstart h hsolid
    have hb : m.brackets ≠ [] := by
      have hdepth : m.brackets.length = depthAfter 0 (before ++ [t]) := harrive.reaches.depth
      rw [← hdepth] at opened
      exact List.length_pos_iff.1 opened
    have hins := Scanner.unseen_trivia trivia hline hb
    rw [List.append_cons] at hd ⊢
    exact Scanner.insert hsource harrive hrun hd (hm.trans stop) trivia.stops hins
  | @within before after t _ htokens stop solid joints =>
    subst htokens
    obtain ⟨m, harrive, -, hrun, hm, hline⟩ := Scanner.arrives_at hat hstart h solid
    have hins := Scanner.unseen_joints joints hline b
    rw [List.append_cons] at hd ⊢
    exact Scanner.insert hsource harrive hrun hd (hm.trans stop) joints.stops hins

/-- A comment on a line of its own, one in brackets, and a line end behind a backslash. -/
theorem tokens_insert_list :
    let span (start stop : Nat) : Span := ⟨.ofOffset start "BUILD", .ofOffset stop "BUILD"⟩
    let ts : List Token := [⟨.identifier, "x", span 0 1⟩, ⟨.sign .assign, "=", span 1 2⟩,
      ⟨.opening .square, "[", span 2 3⟩, ⟨.closing .square, "]", span 3 4⟩,
      .layout .newline (span 4 5), .endAt (.ofOffset 5 "BUILD")]
    tokens "x=[]\n".toList "BUILD" = .ok ts ∧
      tokens "\t# a list\nx=[]\n".toList "BUILD" = .ok (ts.map (Token.moved 0 10)) ∧
      tokens "x=[# empty\n]\n".toList "BUILD" = .ok (ts.map (Token.moved 3 8)) ∧
      tokens "x=\\\n []\n".toList "BUILD" = .ok (ts.map (Token.moved 2 3)) := by
  intro span ts
  have h : tokens "x=[]\n".toList "BUILD" = .ok ts := by decide +kernel
  have hd : Detached ts := by
    unfold Detached
    decide
  have hline : Insertable [] "x=[]\n".toList ts ('\t' :: ('#' :: " a list".toList ++ ['\n'])) :=
    .line (by decide +kernel) (.blank (.inr rfl) (.comment (by decide +kernel) (.inl rfl)))
  have hcomment : Insertable "x=[".toList "]\n".toList ts ('#' :: " empty".toList ++ ['\n']) := by
    have hopening : ts = ts.take 2 ++ ⟨.opening .square, "[", span 2 3⟩ :: ts.drop 3 := rfl
    refine .bracketed hopening (by decide +kernel) (by decide)
      ⟨⟨.closing .square, "]", span 3 4⟩, by decide, .square, rfl⟩ ?_
    exact .comment (by decide +kernel) (by simp) (.lineEnd (.inl rfl) .nil)
  have hjoined : Insertable "x=".toList "[]\n".toList ts ('\\' :: ['\n'] ++ [' ']) := by
    have hassign : ts = ts.take 1 ++ ⟨.sign .assign, "=", span 1 2⟩ :: ts.drop 2 := rfl
    refine .within hassign (by decide +kernel) rfl ?_
    exact .joined (.inl rfl) (.space (.inl rfl) .nil)
  exact ⟨h, (tokens_insert (by decide +kernel) h hd hline).1,
    (tokens_insert (by decide +kernel) h hd hcomment).1,
    (tokens_insert (by decide +kernel) h hd hjoined).1⟩

end BuildTyping
