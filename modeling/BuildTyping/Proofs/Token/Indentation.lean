import BuildTyping.Proofs.Token.Offside
import BuildTyping.Proofs.Token.Tiling

/-!
# Indentation

The tokens of a source obey the off-side rule of its logical lines. A source is refused where a
line is narrower than the one before it and as wide as none that lasts.
-/

namespace BuildTyping

namespace Scanner

variable {source : List Char} {s s' : Scanner} {ts : List Token}

theorem openLine_heads (hs : At source s) (h : s.openLine = .ok (ts, s'))
    (hblank : isBlankLine (s.rest.drop (indentation s.rest).length) = false) :
    Heads (.ofText s.offset s.rest) s.blocks s'.blocks ts := by
  have hfirst := (LogicalLine.first_ofText s.offset s.rest).symm
  have hwidth : columnAfter (indentation s.rest) = (LogicalLine.ofText s.offset s.rest).width := rfl
  have hposition := hs.offset_indentation
  rw [hfirst] at hposition
  simp only [openLine, hblank, Bool.false_eq_true, if_false, hfirst, hwidth] at h
  generalize hl : LogicalLine.ofText s.offset s.rest = l at h hposition ⊢
  split at h
  · rename_i hwider
    cases h
    refine ⟨.indent hwider, .indent rfl .nil, fun t ht => ?_, fun _ => ⟨_, rfl, rfl⟩,
      fun hnot => absurd hwider hnot⟩
    rw [List.mem_singleton.1 ht, layout, Token.layout, spanFrom, ← LogicalLine.first_ofText, hl]
    exact hposition
  · rename_i hwider
    split at h
    · rename_i hsame
      cases h
      refine ⟨restacks_iff.2 (.inr ⟨hsame, rfl⟩), .dedents (List.dropWhile_suffix _).length_le rfl,
        fun t ht => ?_, fun h => absurd h hwider, fun _ t ht => ?_⟩ <;>
        rw [List.eq_of_mem_replicate ht]
      · exact hposition
      · simp
    · simp at h

theorem openLine_error {fault : Fault} (h : s.openLine = .error fault) :
    isBlankLine (s.rest.drop (indentation s.rest).length) = false ∧
      fault = ⟨.inconsistentIndentation,
        s.position (LogicalLine.ofText s.offset s.rest).first⟩ ∧
      ¬∃ blocks', Restacks (LogicalLine.ofText s.offset s.rest).width s.blocks blocks' := by
  simp only [openLine] at h
  split at h
  · simp at h
  · rename_i hblank
    split at h
    · simp at h
    · rename_i hwider
      split at h
      · simp at h
      · rename_i hsame
        cases h
        refine ⟨by simpa using hblank, by rw [LogicalLine.first_ofText], ?_⟩
        rintro ⟨blocks', hstack⟩
        rcases restacks_iff.1 hstack with ⟨h, -⟩ | ⟨h, -⟩
        · exact hwider h
        · exact hsame h

theorem readLexeme_cause {fault : Fault} (h : s.readLexeme = .error fault) :
    fault.cause ≠ .inconsistentIndentation := by
  simp only [readLexeme] at h
  split at h
  · cases h
    simp
  · rename_i lexeme n hn
    cases lexeme with
    | unterminated =>
      cases h
      simp
    | closing b =>
      simp only at h
      split at h
      · simp at h
      · cases h
        simp
    | gap | lineEnd | string | number | word | opening | sign => simp at h

/-- Within a line all tokens end behind the scanner. -/
theorem stop_of_run (hs : At source s) (hline : s.atLineStart = false) (hne : s.rest ≠ [])
    (h : s.run = .ok ts) :
    ∀ t ∈ ts, s.offset ≤ t.span.start.offset ∧ s.offset < t.span.stop.offset := by
  obtain ⟨us, s', vs, hstep, hrun, rfl⟩ := (run_ok hne).1 h
  rcases step_ok.1 hstep with ⟨hstart, -⟩ | ⟨-, hread⟩
  · simp [hline] at hstart
  obtain ⟨lexeme, n, hpass⟩ := readLexeme_passes hread
  obtain ⟨hpos, hle⟩ := Lexeme.next?_bounds hpass.next
  have hlt := hpass.skips.add_le hle
  have htiles := (run_fills (hpass.skips.at hs) hrun).1.tiles
  refine List.forall_mem_append.2 ⟨fun t ht => ?_, fun t ht => ?_⟩
  · rcases hpass.emits with ⟨rfl, -⟩ | ⟨-, u, rfl, hspan, -⟩
    · simp at ht
    · obtain ⟨hstart, hstop⟩ := Prod.mk.inj (hpass.skips.offsets hs s)
      rw [List.mem_singleton.1 ht, hspan]
      exact ⟨Nat.le_of_eq hstart.symm, Nat.lt_of_lt_of_eq (by omega) hstop.symm⟩
  · have hstart := htiles.le_of_mem ht
    have hfits := (htiles.fits_of_mem ht).le
    omega

/-- What is read first reaches over the indentation. -/
theorem first_le_of_readLexeme (hs : At source s) (h : s.readLexeme = .ok (ts, s')) :
    (LogicalLine.ofText s.offset s.rest).first ≤ s'.offset := by
  obtain ⟨-, -, hfills, hindent⟩ := readLexeme_fills hs h
  rw [LogicalLine.first_ofText]
  by_cases hi : indentation s.rest = []
  · rw [hi]
    exact hfills.tiles.le
  · exact (hindent hi).2.le

/-- All tokens of a line, and those of the lines after it, end behind its indentation. -/
theorem behind_of_run {us : List Token} (hs : At source s) (hline : s.atLineStart = false)
    (hblank : isBlankLine (s.rest.drop (indentation s.rest).length) = false)
    (hread : s.readLexeme = .ok (ts, s')) (hrun : s'.run = .ok us) :
    ∀ t ∈ ts ++ us, (LogicalLine.ofText s.offset s.rest).first ≤ t.span.start.offset ∧
      (LogicalLine.ofText s.offset s.rest).first < t.span.stop.offset := by
  have hlt : (indentation s.rest).length < s.rest.length := by
    rw [← Nat.not_le, ← List.drop_eq_nil_iff]
    intro hnil
    simp [hnil, isBlankLine] at hblank
  by_cases hi : indentation s.rest = []
  · have hne : s.rest ≠ [] := List.ne_nil_of_length_pos (by omega)
    have hstep : s.step = .ok (ts, s') := step_ok.2 (.inr ⟨by simp [hline], hread⟩)
    rw [LogicalLine.first_ofText, hi]
    exact stop_of_run hs hline hne ((run_ok hne).2 ⟨ts, s', us, hstep, hrun, rfl⟩)
  · -- the indentation has no token, and what is read with it ends the source or leaves a token
    obtain ⟨hs', -, -, hnone⟩ := readLexeme_fills hs hread
    obtain ⟨rfl, -⟩ := hnone hi
    obtain ⟨lexeme, n, hpass⟩ := readLexeme_passes hread
    obtain ⟨rfl, rfl⟩ := next?_of_indentation hpass.next hi
    have hfirst := first_le_of_readLexeme hs hread
    intro t ht
    by_cases hend : s'.rest = []
    · rw [hpass.skips.rest, List.drop_eq_nil_iff] at hend
      have hoffset := hpass.skips.add_le (Lexeme.next?_bounds hpass.next).2
      have htiles := (run_fills hs' hrun).1.tiles
      have hstart := htiles.le_of_mem ht
      have hfits := (htiles.fits_of_mem ht).le
      rw [LogicalLine.first_ofText]
      omega
    · have hline' : s'.atLineStart = false := by simp [hpass.atLineStart, hline]
      have hstop := stop_of_run hs' hline' hend hrun t ht
      omega

theorem offside_finish (s : Scanner) : Offside s.blocks [] s.finish := by
  have hline : ∀ t ∈ if s.lineOpen then [s.layout .newline s.offset 0] else [],
      t.kind ≠ .indent ∧ t.kind ≠ .dedent := by
    split <;> simp
  refine .finish ?_ ?_
  · refine ((Nests.of_plain hline).append (.dedents (Nat.zero_le _) rfl)).append ?_
    exact .of_plain (by simp [Token.endAt])
  · intro t ht
    rcases List.mem_append.1 ht with ht | ht
    · rcases List.mem_append.1 ht with ht | ht
      · exact (hline t ht).1
      · simp [List.eq_of_mem_replicate ht]
    · simp [List.mem_singleton.1 ht, Token.endAt]

/-- Only the indentation of a line can be inconsistent. -/
theorem step_inconsistent {fault : Fault} (h : s.step = .error fault)
    (hcause : fault.cause = .inconsistentIndentation) :
    (s.atLineStart && s.brackets.isEmpty) = true ∧ s.openLine = .error fault := by
  cases hc : s.atLineStart && s.brackets.isEmpty with
  | false =>
    simp only [step, hc, Bool.false_eq_true, if_false] at h
    exact absurd hcause (readLexeme_cause h)
  | true =>
    refine ⟨rfl, ?_⟩
    simp only [step, hc, if_true] at h
    cases ho : s.openLine with
    | error other => simpa [ho, bind, Except.bind] using h
    | ok opened =>
      cases hr : opened.2.readLexeme with
      | error other =>
        have hother : other = fault := by simpa [ho, hr, bind, Except.bind] using h
        exact absurd hcause (readLexeme_cause (hother ▸ hr))
      | ok after => simp [ho, hr, bind, Except.bind, pure, Except.pure] at h

/-- What a scanner reads without opening a line goes before the rest. -/
theorem obeys_within {us : List Token} {lines : List LogicalLine} (hs : At source s)
    (h : s.readLexeme = .ok (us, s')) (hlines : s'.lines = lines)
    (hrest : Obeys s'.blocks s'.lines s'.run) : Obeys s.blocks lines (s'.run.map (us ++ ·)) := by
  obtain ⟨lexeme, n, hpass⟩ := readLexeme_passes h
  rw [← hpass.blocks, ← hlines]
  refine hrest.within (fun t ht => ?_) fun t ht l hl => ?_
  · obtain ⟨hindent, hdedent, -⟩ := hpass.plain ht
    exact ⟨hindent, hdedent⟩
  · have hstop := (readLexeme_fills hs h).2.2.1.tiles.stop_le ht
    exact Nat.le_trans hstop (le_first_of_mem_lines hl)

/-- A line that is not blank goes before the rest with the tokens at its head. -/
theorem obeys_line {layout us : List Token} {mid : Scanner} (hs : At source s)
    (hstart : (s.atLineStart && s.brackets.isEmpty) = true) (ho : s.openLine = .ok (layout, mid))
    (hread : mid.readLexeme = .ok (us, s'))
    (hrest : (s'.atLineStart = true → s'.brackets = []) → Obeys s'.blocks s'.lines s'.run) :
    Obeys s.blocks s.lines (s'.run.map (layout ++ us ++ ·)) := by
  obtain ⟨lexeme, n, hpass⟩ := readLexeme_passes hread
  rcases openLine_cases ho with ⟨hblank, rfl, rfl⟩ | ⟨hblank, ⟨blocks, rfl⟩, -⟩
  · rw [Bool.and_eq_true, List.isEmpty_iff] at hstart
    obtain ⟨hlines, hb⟩ := hpass.lines_of_blank hstart.1 hstart.2 hblank
    exact obeys_within hs hread hlines (hrest fun _ => hb)
  · have hmid : At source { s with
      blocks := blocks, atLineStart := false, lineOpen := s.lineOpen || !layout.isEmpty } :=
      ⟨hs.short, hs.split⟩
    have hlines := hpass.lines_of_within rfl
    have hinner := obeys_within hmid hread hlines (hrest (hpass.brackets_of_within rfl))
    have hfirst := first_le_of_readLexeme hmid hread
    have ahead (l' : LogicalLine) (hl' : l' ∈ s.linesBehind) :
        (LogicalLine.ofText s.offset s.rest).first ≤ l'.first := by
      refine Nat.le_trans hfirst (le_first_of_mem_lines ?_)
      rw [hlines]
      exact hl'
    have hmap : (s'.run.map (us ++ ·)).map (layout ++ ·) = s'.run.map (layout ++ us ++ ·) := by
      cases s'.run <;> simp [Except.map]
    rw [lines_of_line hstart hblank, ← hmap]
    refine hinner.line (openLine_heads hs ho hblank) ahead fun vs hvs => ?_
    cases hrun : s'.run with
    | error fault => simp [hrun, Except.map] at hvs
    | ok ws =>
      simp only [hrun, Except.map, Except.ok.injEq] at hvs
      subst hvs
      exact fun u hu => behind_of_run hmid rfl hblank hread hrun u hu

/-- A run of a scanner obeys the rule from the blocks that are open. -/
theorem run_obeys (hs : At source s) (hb : s.atLineStart = true → s.brackets = []) :
    Obeys s.blocks s.lines s.run := by
  fun_induction run s with
  | case1 s hr =>
    rw [lines_nil hr]
    exact offside_finish s
  | case2 s hr fault hstep =>
    intro hcause
    obtain ⟨hstart, ho⟩ := step_inconsistent hstep hcause
    obtain ⟨hblank, rfl, hnone⟩ := openLine_error ho
    rw [lines_of_line hstart hblank]
    have hposition := hs.offset_indentation
    rw [← LogicalLine.first_ofText] at hposition
    exact .here hnone hposition
  | case3 s hr first s' hstep ih =>
    have hs' := (step_fills hs hstep).1
    rcases step_ok.1 hstep with ⟨hstart, layout, mid, us, ho, hread, rfl⟩ | ⟨hstart, hread⟩
    · exact obeys_line hs hstart ho hread (ih hs')
    · have hline : s.atLineStart = false := by
        cases ha : s.atLineStart with
        | false => rfl
        | true => simp [ha, hb ha] at hstart
      obtain ⟨lexeme, n, hpass⟩ := readLexeme_passes hread
      rw [lines_of_within hline]
      exact obeys_within hs hread (hpass.lines_of_within hline)
        (ih hs' (hpass.brackets_of_within hline))

end Scanner

/-- A source with less than 4 GiB whose lexemes are in order is refused exactly where a line is a
misfit, at the first character of the first such line. Otherwise its tokens follow its lines. -/
theorem offside_rule {source : List Char} {file : String} (hshort : byteLength source < 2 ^ 32)
    (h : ∀ fault, tokens source file = .error fault → fault.cause = .inconsistentIndentation) :
    ((∃ fault, tokens source file = .error fault ∧ fault.cause = .inconsistentIndentation) ↔
      ∃ before l after, logicalLines source = before ++ l :: after ∧
        Misfit (before.map (·.width)) l.width) ∧
    (∀ fault, tokens source file = .error fault →
      ∃ before l after, logicalLines source = before ++ l :: after ∧
        Misfit (before.map (·.width)) l.width ∧
        (∀ earlier l' later, before = earlier ++ l' :: later →
          ¬Misfit (earlier.map (·.width)) l'.width) ∧
        fault.cause = .inconsistentIndentation ∧ fault.offset = l.first) ∧
    ∀ ts, tokens source file = .ok ts → FollowsLines (logicalLines source) ts := by
  have hobeys : Obeys [] (logicalLines source) (tokens source file) := by
    rw [← Scanner.lines_start source file]
    exact Scanner.run_obeys (.start hshort file) fun _ => rfl
  have htracks : Tracks (([] : List LogicalLine).map (·.width)) [] := .nil
  have hfirst (fault : Fault) (hfault : tokens source file = .error fault) :
      ∃ before l after, logicalLines source = before ++ l :: after ∧
        Misfit (before.map (·.width)) l.width ∧ AllFit [] before ∧ fault.offset = l.first := by
    rw [hfault] at hobeys
    have hbreaks : Breaks [] (logicalLines source) fault := hobeys (h fault hfault)
    obtain ⟨before, l, after, hlines, hfits, hmisfit, hat⟩ := hbreaks.misfit htracks
    exact ⟨before, l, after, hlines, hmisfit, hfits, hat⟩
  have hok (ts : List Token) (hts : tokens source file = .ok ts) :
      Offside [] (logicalLines source) ts := by
    rw [hts] at hobeys
    exact hobeys
  refine ⟨⟨?_, ?_⟩, ?_, fun ts hts => (hok ts hts).follows⟩
  · rintro ⟨fault, hfault, -⟩
    obtain ⟨before, l, after, hlines, hmisfit, -⟩ := hfirst fault hfault
    exact ⟨before, l, after, hlines, hmisfit⟩
  · rintro ⟨before, l, after, hlines, hmisfit⟩
    cases hts : tokens source file with
    | error fault => exact ⟨fault, rfl, h fault hts⟩
    | ok ts =>
      have hfits := allFit_iff.1 ((hok ts hts).fits htracks) before l after hlines
      exact absurd hmisfit hfits
  · intro fault hfault
    obtain ⟨before, l, after, hlines, hmisfit, hfits, hat⟩ := hfirst fault hfault
    exact ⟨before, l, after, hlines, hmisfit, allFit_iff.1 hfits, h fault hfault, hat⟩

/-- The last line of the first source is as wide as no line before it. In the second source a tab
behind two spaces is as wide as one alone, and the last line ends one of two blocks. -/
theorem offside_rule_return :
    let refused := "if x:\n\ty\n  z\n".toList
    let read := "for x in y:\n  \tif x:\n\t  z\n\ty\n".toList
    (∃ before l after, logicalLines refused = before ++ l :: after ∧
        Misfit (before.map (·.width)) l.width ∧ l.first = 11) ∧
      ∃ ts, tokens read "BUILD" = .ok ts ∧ FollowsLines (logicalLines read) ts ∧
        (logicalLines read).map (·.width) = [0, 8, 10, 8] := by
  intro refused read
  constructor
  · have hrun : tokens refused "BUILD" =
        .error ⟨.inconsistentIndentation, .ofOffset 11 "BUILD"⟩ := by
      decide +kernel
    have hother (other : Fault) (h : tokens refused "BUILD" = .error other) :
        other.cause = .inconsistentIndentation := by
      rw [hrun] at h
      cases h
      rfl
    obtain ⟨before, l, after, hlines, hmisfit, -, -, hat⟩ :=
      (offside_rule (by decide +kernel) hother).2.1 _ hrun
    exact ⟨before, l, after, hlines, hmisfit, hat.symm⟩
  · have hrun : (tokens read "BUILD").isOk = true := by decide +kernel
    cases hts : tokens read "BUILD" with
    | error fault => simp [hts, Except.isOk, Except.toBool] at hrun
    | ok ts =>
      have hother (other : Fault) (h : tokens read "BUILD" = .error other) :
          other.cause = .inconsistentIndentation := by
        rw [hts] at h
        cases h
      exact ⟨ts, rfl, (offside_rule (by decide +kernel) hother).2.2 ts hts, by decide +kernel⟩

end BuildTyping
