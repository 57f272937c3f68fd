import BuildTyping.Proofs.Token.Hollow
import BuildTyping.Proofs.Token.Indentation

/-!
# Lines framed by layout

What the layout tokens of a line stand next to. A line that counts for the layout of its source may
hold nothing but skipped text, as a form feed or a line end behind a backslash makes it one that is
not blank. Where such a line is as wide as the one before it the tokens at the head of a line come
before a token of that line, and the token at its end behind one.
-/

namespace BuildTyping

/-- The line holds nothing but skipped text. -/
def Hollow (source : List Char) (l : LogicalLine) : Prop := Mute (dropBytes l.first source)

/-- Hollow lines are as wide as the line before them, the first of which is as wide as `w`. -/
def HollowsFit (source : List Char) (w : Nat) : List LogicalLine → Prop
  | [] => True
  | l :: lines => (Hollow source l → l.width = w) ∧ HollowsFit source l.width lines

/-- The tokens from a place on, where `said` tells whether the line has a token. If `fit` holds the
tokens at the head of a line come before a token of that line, and their spans tell where. -/
inductive Framed (source : List Char) (fit : Prop) : Bool → List Token → Prop where
  | finish {ts : List Token} (plain : ∀ t ∈ ts, t.kind ≠ .newline)
      (ends : fit → ∀ t ∈ ts, byteLength source ≤ t.span.stop.offset) : Framed source fit false ts
  | solid {said : Bool} {t : Token} {ts : List Token} (solid : t.kind.isSolid = true)
      (rest : Framed source fit true ts) : Framed source fit said (t :: ts)
  | newline {t : Token} {ts : List Token} (kind : t.kind = .newline)
      (rest : Framed source fit false ts) : Framed source fit true (t :: ts)
  | heads {first : Nat} {heads ts : List Token} (ne : heads ≠ [])
      (kinds : (∃ t, heads = [t] ∧ t.kind = .indent) ∨ ∀ t ∈ heads, t.kind = .dedent)
      (stop : fit → ∀ t ∈ heads, t.span.stop.offset = first)
      (next : fit → ∃ t us gap, ts = t :: us ∧ t.kind.isSolid = true ∧
        slice? first t.span.start.offset source = some gap ∧ Joints gap)
      (rest : Framed source fit true ts) : Framed source fit false (heads ++ ts)

/-- A token at the head of a line comes right before the end of a line. -/
def Stray (ts : List Token) : Prop :=
  ∃ us t u vs, ts = us ++ t :: u :: vs ∧ (t.kind = .indent ∨ t.kind = .dedent) ∧ u.kind = .newline

theorem Stray.append {ts : List Token} (h : Stray ts) (before : List Token) :
    Stray (before ++ ts) := by
  obtain ⟨us, t, u, vs, rfl, ht, hu⟩ := h
  exact ⟨before ++ us, t, u, vs, (List.append_assoc ..).symm, ht, hu⟩

namespace Scanner

variable {source : List Char} {s s' : Scanner} {ts : List Token}

/-- The scanner behind the tokens at the head of a line, with these blocks open. -/
def opened (s : Scanner) (blocks : List Nat) (heads : List Token) : Scanner :=
  { s with
    blocks := blocks
    atLineStart := false
    lineOpen := s.lineOpen || !heads.isEmpty }

/-- A step reads a lexeme of a line that is open or blank, or opens the next line that counts. -/
inductive Turn (s : Scanner) : List Token → Scanner → Prop where
  | within {ts : List Token} {s' : Scanner} (read : s.readLexeme = .ok (ts, s'))
      (blank : s.atLineStart = true →
        isBlankLine (s.rest.drop (indentation s.rest).length) = true)
      (lines : s'.lines = s.lines) (blocks : s'.blocks = s.blocks) : Turn s ts s'
  | line {heads us : List Token} {s' : Scanner} (start : s.atLineStart = true)
      (blank : isBlankLine (s.rest.drop (indentation s.rest).length) = false)
      (opens : s.openLine = .ok (heads, s.opened s'.blocks heads))
      (read : (s.opened s'.blocks heads).readLexeme = .ok (us, s'))
      (lines : s.lines = .ofText s.offset s.rest :: s'.lines) : Turn s (heads ++ us) s'

theorem turn_of_step (hb : s.atLineStart = true → s.brackets = []) (h : s.step = .ok (ts, s')) :
    s.Turn ts s' := by
  rcases step_ok.1 h with ⟨hstart, heads, mid, us, ho, hread, rfl⟩ | ⟨hstart, hread⟩
  · obtain ⟨lexeme, n, hpass⟩ := readLexeme_passes hread
    rcases openLine_cases ho with ⟨hblank, rfl, rfl⟩ | ⟨hblank, ⟨blocks, rfl⟩, -⟩
    · rw [Bool.and_eq_true, List.isEmpty_iff] at hstart
      obtain ⟨hlines, -⟩ := hpass.lines_of_blank hstart.1 hstart.2 hblank
      exact .within hread (fun _ => hblank) hlines hpass.blocks
    · have hlines := lines_of_line hstart hblank
      rw [Bool.and_eq_true, List.isEmpty_iff] at hstart
      have hbehind : s'.lines = s.linesBehind := hpass.lines_of_within rfl
      have hblocks : s'.blocks = blocks := hpass.blocks
      subst hblocks
      exact .line hstart.1 hblank ho hread (by rw [hlines, hbehind])
  · have hline : s.atLineStart = false := by
      cases ha : s.atLineStart with
      | false => rfl
      | true => simp [ha, hb ha] at hstart
    obtain ⟨lexeme, n, hpass⟩ := readLexeme_passes hread
    refine .within hread (by simp [hline]) ?_ hpass.blocks
    rw [hpass.lines_of_within hline, lines_of_within hline]

/-- A line that is as wide as the one before it opens without a token. -/
theorem openLine_level (hblank : isBlankLine (s.rest.drop (indentation s.rest).length) = false)
    (hwidth : columnAfter (indentation s.rest) = s.blocks.headD 0) :
    s.openLine = .ok ([], s.opened s.blocks []) := by
  have houter : s.blocks.dropWhile (columnAfter (indentation s.rest) < ·) = s.blocks := by
    rw [hwidth]
    cases s.blocks with
    | nil => rfl
    | cons b blocks => simp
  simp only [openLine, hblank, houter, Bool.false_eq_true, if_false]
  rw [if_neg (by omega), if_pos hwidth.symm]
  simp [opened]

/-- A line that opens without a token is as wide as the one before it. -/
theorem level_of_heads {l : LogicalLine} {blocks blocks' : List Nat}
    (h : Heads l blocks blocks' []) : l.width = blocks.headD 0 := by
  have hlength : blocks.length = blocks'.length := by simpa [tally] using h.nests.tally_eq
  rcases restacks_iff.1 h.restacks with ⟨-, rfl⟩ | ⟨hsame, rfl⟩
  · simp at hlength
  · rw [(List.dropWhile_suffix _).eq_of_length hlength.symm] at hsame
    exact hsame.symm

theorem endLine_of_readLexeme {n : Nat} (h : s.readLexeme = .ok (ts, s'))
    (hn : Lexeme.next? s.rest = some (.lineEnd, n)) (hb : s.brackets = []) :
    s'.lineOpen = false ∧ (ts ≠ [] → s.lineOpen = true) := by
  simp only [readLexeme, hn, endLine, hb, List.isEmpty_nil, if_true, Except.ok.injEq,
    Prod.mk.injEq] at h
  obtain ⟨rfl, rfl⟩ := h
  simp

/-- At the start of a line no bracket is open and the line has no token. -/
def Fresh (s : Scanner) : Prop := s.atLineStart = true → s.brackets = [] ∧ s.lineOpen = false

/-- Only a line end outside brackets leads to the start of a line. -/
theorem fresh_of_readLexeme (h : s.readLexeme = .ok (ts, s')) (hfresh : s.Fresh)
    (blank : s.atLineStart = true →
      isBlankLine (s.rest.drop (indentation s.rest).length) = true) : s'.Fresh := by
  intro hstart
  obtain ⟨lexeme, n, hpass⟩ := readLexeme_passes h
  by_cases hend : lexeme = .lineEnd ∧ s.brackets = []
  · obtain ⟨rfl, hb⟩ := hend
    refine ⟨?_, (endLine_of_readLexeme h hpass.next hb).1⟩
    rw [← List.length_eq_zero_iff, hpass.depth, hb]
    rfl
  · have hs : s.atLineStart = true := by
      simpa [hpass.atLineStart, hend] using hstart
    obtain ⟨hb, hopen⟩ := hfresh hs
    refine ⟨(hpass.lines_of_blank hs hb (blank hs)).2, ?_⟩
    rcases next?_of_blank (blank hs) hpass.next with rfl | ⟨rfl, -⟩
    · exact absurd ⟨rfl, hb⟩ hend
    · rcases hpass.emits with ⟨-, -, hsame⟩ | ⟨hgap, -⟩
      · exact hsame.trans hopen
      · exact absurd rfl hgap

theorem Fresh.turn (hfresh : s.Fresh) (h : s.Turn ts s') : s'.Fresh := by
  cases h with
  | within read blank => exact fresh_of_readLexeme read hfresh blank
  | line start blank opens read =>
    exact fresh_of_readLexeme read (by simp [Fresh, opened]) (by simp [opened])

/-- The token of a lexeme may come before what is framed. -/
theorem framed_of_readLexeme {fit : Prop} {more : List Token} (h : s.readLexeme = .ok (ts, s'))
    (rest : Framed source fit s'.lineOpen more) : Framed source fit s.lineOpen (ts ++ more) := by
  obtain ⟨lexeme, n, hpass⟩ := readLexeme_passes h
  rcases hpass.emits with ⟨rfl, -, hopen⟩ | ⟨-, t, rfl, -, -, hkind, hopen⟩
  · rw [hopen] at rest
    exact rest
  · rw [hopen] at rest
    rcases hkind with hnewline | hsolid
    · have hlayout := layout_of_readLexeme h hpass.next (List.mem_singleton_self t)
      rw [hnewline] at hlayout rest
      have hend : lexeme = .lineEnd ∧ s.brackets = [] := by
        split at hlayout
        · rename_i hlexeme
          exact ⟨hlexeme, hlayout.2⟩
        · exact Bool.noConfusion hlayout
      obtain ⟨rfl, hb⟩ := hend
      rw [(endLine_of_readLexeme h hpass.next hb).2 (by simp)]
      exact .newline hnewline rest
    · rw [hsolid] at rest
      exact .solid hsolid rest

/-- The scanner behind the indentation of its line. -/
def indented (s : Scanner) : Scanner :=
  (s.facing (s.rest.drop (indentation s.rest).length)).shift (indentation s.rest).length

theorem run_indented (hline : s.atLineStart = false) : s.run = s.indented.run := by
  have hjoints : Joints (indentation s.rest) :=
    .of_spaces fun c hc => (blank_of_mem_indentation hc).imp_right .inl
  have hunseen := unseen_joints hjoints hline (s.rest.drop (indentation s.rest).length)
  rwa [Unseen, indentation_append_drop, facing_rest, byteLength_indentation] at hunseen

theorem At.indented (hs : At source s) : At source s.indented := s.skips_indentation.at hs

/-- Whether the line where the scanner stands is hollow shows behind its indentation. -/
theorem hollow_iff (hs : At source s) :
    Hollow source (.ofText s.offset s.rest) ↔ Mute s.indented.rest := by
  rw [Hollow, LogicalLine.first_ofText]
  exact iff_of_eq (congrArg Mute hs.indented.dropBytes)

theorem framed_finish {fit : Prop} (hs : fit → At source s) (hr : s.rest = []) :
    Framed source fit s.lineOpen s.finish := by
  have hstop (h : fit) : byteLength source ≤ (s.position s.offset).offset := by
    rw [(hs h).offset_position s, (hs h).offset_eq hr]
  have hends : Framed source fit false (List.replicate s.blocks.length
      (s.layout .dedent s.offset 0) ++ [.endAt (s.position s.offset)]) := by
    refine .finish (fun t ht => ?_) fun h t ht => ?_
    · rcases List.mem_append.1 ht with ht | ht
      · simp [List.eq_of_mem_replicate ht]
      · simp [List.mem_singleton.1 ht, Token.endAt]
    · rcases List.mem_append.1 ht with ht | ht
      · rw [List.eq_of_mem_replicate ht]
        exact hstop h
      · rw [List.mem_singleton.1 ht]
        exact hstop h
  rw [finish]
  cases s.lineOpen with
  | false => simpa using hends
  | true => simpa using Framed.newline rfl hends

section Line

variable {heads us more : List Token} {blocks : List Nat}

theorem heads_of_opened (hs : At source s)
    (blank : isBlankLine (s.rest.drop (indentation s.rest).length) = false)
    (opens : s.openLine = .ok (heads, s.opened blocks heads)) :
    Heads (.ofText s.offset s.rest) s.blocks blocks heads := openLine_heads hs opens blank

/-- A line begins one block, or ends some. -/
theorem kinds_of_opened (opens : s.openLine = .ok (heads, s.opened blocks heads)) :
    (∃ t, heads = [t] ∧ t.kind = .indent) ∨ ∀ t ∈ heads, t.kind = .dedent := by
  rcases openLine_cases opens with ⟨-, rfl, -⟩ | ⟨-, -, rfl | ⟨n, rfl⟩⟩
  · exact .inr (by simp)
  · exact .inl ⟨_, rfl, rfl⟩
  · refine .inr fun t ht => ?_
    rw [List.eq_of_mem_replicate ht]
    rfl

/-- Behind the indentation of a line that is opened the rest of its run goes on. -/
theorem run_behind (read : (s.opened s'.blocks heads).readLexeme = .ok (us, s'))
    (hrun : s'.run = .ok more) :
    (s.opened s'.blocks heads).indented.run = .ok (us ++ more) := by
  have hline : (s.opened s'.blocks heads).atLineStart = false := rfl
  have hstep : (s.opened s'.blocks heads).step = .ok (us, s') :=
    (reading_of_within hline).trans read
  rw [← run_indented hline]
  exact (run_ok (rest_ne_nil_of_step hstep)).2 ⟨us, s', more, hstep, hrun, rfl⟩

/-- The tokens at the head of a line come before those behind its indentation. -/
theorem framed_line {fit : Prop} (hs : fit → At source s) (hopen : s.lineOpen = false)
    (blank : isBlankLine (s.rest.drop (indentation s.rest).length) = false)
    (opens : s.openLine = .ok (heads, s.opened s'.blocks heads))
    (read : (s.opened s'.blocks heads).readLexeme = .ok (us, s')) (hrun : s'.run = .ok more)
    (rest : Framed source fit s'.lineOpen more)
    (hfit : fit → Hollow source (.ofText s.offset s.rest) →
      (LogicalLine.ofText s.offset s.rest).width = s.blocks.headD 0) :
    Framed source fit s.lineOpen (heads ++ us ++ more) := by
  have hbehind := framed_of_readLexeme read rest
  rw [List.append_assoc]
  by_cases hnil : heads = []
  · subst hnil
    simpa [opened, hopen] using hbehind
  · have hsaid : (s.opened s'.blocks heads).lineOpen = true := by simp [opened, hnil]
    rw [hsaid] at hbehind
    rw [hopen]
    refine .heads hnil (kinds_of_opened opens)
      (fun h => (heads_of_opened (hs h) blank opens).stop) (fun h => ?_) hbehind
    have hspeaks : Speaks s.indented.rest := by
      refine (mute_or_speaks s.indented.rest).resolve_left fun hmute => hnil ?_
      have hlevel := openLine_level blank (hfit h ((hollow_iff (hs h)).2 hmute))
      rw [opens] at hlevel
      exact (Prod.mk.inj (Except.ok.inj hlevel)).1
    have hat : At source (s.opened s'.blocks heads) := ⟨(hs h).short, (hs h).split⟩
    rw [LogicalLine.first_ofText]
    exact first_of_speaks hat.indented rfl hspeaks (run_behind read hrun)

/-- On a hollow line the tokens at its head come right before its end. -/
theorem stray_line (hs : At source s) (hb : s.brackets = []) (hne : heads ≠ [])
    (opens : s.openLine = .ok (heads, s.opened s'.blocks heads))
    (read : (s.opened s'.blocks heads).readLexeme = .ok (us, s')) (hrun : s'.run = .ok more)
    (hollow : Hollow source (.ofText s.offset s.rest)) : Stray (heads ++ us ++ more) := by
  obtain ⟨line, rest, hrest, hline⟩ := (hollow_iff hs).1 hollow
  have hopen : (s.opened s'.blocks heads).indented.lineOpen = true := by
    simp [indented, opened, shift, facing, hne]
  obtain ⟨t, vs, ht, -, hvs⟩ := tokens_of_voidLine
    (s := (s.opened s'.blocks heads).indented) hline hrest rfl hb (run_behind read hrun)
  have hkind : (heads.getLast hne).kind = .indent ∨ (heads.getLast hne).kind = .dedent := by
    rcases kinds_of_opened opens with ⟨u, rfl, hu⟩ | hdedent
    · exact .inl hu
    · exact .inr (hdedent _ (List.getLast_mem hne))
  refine ⟨heads.dropLast, heads.getLast hne, t, vs, ?_, hkind, ht⟩
  rw [List.append_assoc, hvs, hopen, List.append_cons, List.dropLast_concat_getLast hne]
  rfl

end Line

/-- Whether hollow lines ahead are as wide as the line before them. -/
def Fits (source : List Char) (s : Scanner) : Prop := HollowsFit source (s.blocks.headD 0) s.lines

theorem fits_of_within (lines : s'.lines = s.lines) (blocks : s'.blocks = s.blocks) :
    Fits source s' ↔ Fits source s := by
  rw [Fits, Fits, lines, blocks]

theorem fits_of_line {heads : List Token}
    (opens : Heads (.ofText s.offset s.rest) s.blocks s'.blocks heads)
    (lines : s.lines = .ofText s.offset s.rest :: s'.lines) : Fits source s ↔
      (Hollow source (.ofText s.offset s.rest) →
        (LogicalLine.ofText s.offset s.rest).width = s.blocks.headD 0) ∧ Fits source s' := by
  rw [Fits, Fits, lines, HollowsFit, opens.restacks.headD]

/-- The tokens of a run are framed, and those at the head of a line come before a token of it if
hollow lines fit. -/
theorem run_framed {fit : Prop} (hs : fit → At source s) (hfresh : s.Fresh) (h : s.run = .ok ts)
    (hfit : fit → Fits source s) : Framed source fit s.lineOpen ts := by
  induction h using run_induction with
  | finish s hr => exact framed_finish hs hr
  | step s first s' more hr hstep hrun ih =>
    have hturn := turn_of_step (fun hstart => (hfresh hstart).1) hstep
    have hs' (h : fit) : At source s' := (step_fills (hs h) hstep).1
    have hfresh' := hfresh.turn hturn
    cases hturn with
    | within read blank lines blocks =>
      exact framed_of_readLexeme read
        (ih hs' hfresh' fun h => (fits_of_within lines blocks).2 (hfit h))
    | line start blank opens read lines =>
      have hparts (h : fit) :=
        (fits_of_line (heads_of_opened (hs h) blank opens) lines).1 (hfit h)
      exact framed_line hs (hfresh start).2 blank opens read hrun
        (ih hs' hfresh' fun h => (hparts h).2) fun h => (hparts h).1

/-- Where a hollow line ahead does not fit its end is stray. -/
theorem run_stray (hs : At source s) (hfresh : s.Fresh) (h : s.run = .ok ts)
    (hfit : ¬Fits source s) : Stray ts := by
  induction h using run_induction with
  | finish s hr =>
    rw [Fits, lines_nil hr] at hfit
    exact absurd trivial hfit
  | step s first s' more hr hstep hrun ih =>
    have hturn := turn_of_step (fun hstart => (hfresh hstart).1) hstep
    have hs' := (step_fills hs hstep).1
    have hfresh' := hfresh.turn hturn
    cases hturn with
    | within read blank lines blocks =>
      exact (ih hs' hfresh' fun hfits => hfit ((fits_of_within lines blocks).1 hfits)).append _
    | line start blank opens read lines =>
      have hheads := heads_of_opened hs blank opens
      by_cases hfits : Fits source s'
      · have hhollow : ¬(Hollow source (.ofText s.offset s.rest) →
            (LogicalLine.ofText s.offset s.rest).width = s.blocks.headD 0) :=
          fun h => hfit ((fits_of_line hheads lines).2 ⟨h, hfits⟩)
        obtain ⟨hollow, hwidth⟩ := Classical.not_imp.1 hhollow
        refine stray_line hs (hfresh start).1 ?_ opens read hrun hollow
        rintro rfl
        exact hwidth (level_of_heads hheads)
      · exact (ih hs' hfresh' hfits).append _

/-- The scanner with the indentation of its line compared. -/
def within (s : Scanner) : Scanner := { s with atLineStart := false }

/-- On a blank line it does not matter whether the indentation has been compared. -/
theorem run_blank (hstart : s.atLineStart = true) (hb : s.brackets = [])
    (hblank : isBlankLine (s.rest.drop (indentation s.rest).length) = true) :
    s.run = s.within.run := by
  induction hlength : s.rest.length using Nat.strong_induction_on generalizing s with
  | _ k ih =>
    by_cases hnil : s.rest = []
    · rw [run_nil hnil, run_nil (by exact hnil)]
      rfl
    · have hread : s.Reading := reading_of_blank hblank
      have hread' : s.within.Reading := reading_of_within rfl
      have hsame (h : s.readLexeme = s.within.readLexeme) :
          s.run = s.within.run := by
        apply run_eq_of_step hnil (show s.within.rest ≠ [] from hnil)
        rw [hread, hread', h]
      cases hn : Lexeme.next? s.rest with
      | none => exact hsame (by simp [readLexeme, within, position, hn])
      | some next =>
        obtain ⟨lexeme, n⟩ := next
        rcases next?_of_blank hblank hn with rfl | ⟨rfl, hrest⟩
        · exact hsame
            (by simp [readLexeme, within, hn, endLine, layout, spanFrom, position, hb, skip])
        · obtain ⟨hpos, hle⟩ := Lexeme.next?_bounds hn
          rw [run_of_gap hread hn, run_of_gap hread' hn]
          refine ih (s.rest.drop n).length ?_ hstart hb ?_ rfl
          · rw [List.length_drop]
            omega
          · rw [rest_skip, indentation_of_isBlankLine hrest]
            exact hrest

theorem mute_indented (h : Mute s.rest) : Mute s.indented.rest := by
  rw [← indentation_append_drop s.rest] at h
  exact .of_append (fun c hc => (blank_of_mem_indentation hc).imp_right .inl) h

/-- A line of skipped text that fits begins no block and ends none. -/
theorem run_mute (hs : At source s) (hfresh : s.Fresh) (hstart : s.atLineStart = true)
    (hfit : Fits source s) (hmute : Mute s.rest) :
    s.run = s.within.run := by
  obtain ⟨hb, hopen⟩ := hfresh hstart
  have hline : (s.atLineStart && s.brackets.isEmpty) = true := by simp [hstart, hb]
  cases hblank : isBlankLine (s.rest.drop (indentation s.rest).length) with
  | true => exact run_blank hstart hb hblank
  | false =>
    rw [Fits, lines_of_line hline hblank] at hfit
    have hlevel := openLine_level hblank (hfit.1 ((hollow_iff hs).2 (mute_indented hmute)))
    have hopened : s.opened s.blocks [] = s.within := by
      simp [opened, within, hopen]
    rw [hopened] at hlevel
    have hnil : s.rest ≠ [] := by
      intro hnil
      simp [hnil, isBlankLine] at hblank
    apply run_eq_of_step hnil (show s.within.rest ≠ [] from hnil)
    rw [step_of_openLine hline hlevel]
    exact (reading_of_within rfl).symm

theorem Fresh.start (source : List Char) (file : String) : (start source file).Fresh :=
  fun _ => ⟨rfl, rfl⟩

/-- Along the way to a place the lines ahead go on to fit. -/
theorem Arrives.fits {us : List Token} {m : Scanner} (h : Arrives s us m) (hs : At source s)
    (hfresh : s.Fresh) (hfit : Fits source s) : m.Fresh ∧ Fits source m := by
  induction h with
  | here => exact ⟨hfresh, hfit⟩
  | step first _ _ ih =>
    have hturn := turn_of_step (fun hstart => (hfresh hstart).1) first
    refine ih (step_fills hs first).1 (hfresh.turn hturn) ?_
    cases hturn with
    | within read blank lines blocks => exact (fits_of_within lines blocks).2 hfit
    | line start blank opens read lines =>
      exact ((fits_of_line (heads_of_opened hs blank opens) lines).1 hfit).2

/-- No token begins on a line of skipped text that fits. -/
theorem start_of_mute {line rest : List Char} (hs : At source s) (hfresh : s.Fresh)
    (hstart : s.atLineStart = true) (hfit : Fits source s) (hrest : s.rest = line ++ rest)
    (hline : VoidLine rest line) (h : s.run = .ok ts) :
    ∀ t ∈ ts, s.offset + byteLength line ≤ t.span.start.offset := by
  obtain ⟨hb, hopen⟩ := hfresh hstart
  rw [run_mute hs hfresh hstart hfit ⟨line, rest, hrest, hline⟩] at h
  obtain ⟨newline, vs, -, hnext, hvs⟩ := tokens_of_voidLine (s := s.within) hline hrest rfl hb h
  have hopen' : s.within.lineOpen = false := hopen
  rw [hopen'] at hvs
  subst hvs
  have hat : At source (s.within.nextLine line rest) := by
    obtain ⟨hshort, read, hsource, hoffset⟩ := hs
    refine ⟨hshort, read ++ line, ?_, ?_⟩
    · rw [hsource, hrest, List.append_assoc]
      rfl
    · rw [byteLength_append, ← hoffset]
      rfl
  intro t ht
  exact (run_fills hat hnext).1.tiles.le_of_mem ht

end Scanner

/-- Behind a token at the head of a line, and others that end blocks, comes a token of the line. -/
def LeadsOn (source : List Char) (t : Token) (after : List Token) : Prop :=
  ∃ dedents u more gap, after = dedents ++ u :: more ∧ (∀ d ∈ dedents, d.kind = .dedent) ∧
    u.kind.isSolid = true ∧ slice? t.span.stop.offset u.span.start.offset source = some gap ∧
      Joints gap

namespace Framed

variable {source : List Char} {fit : Prop} {said : Bool} {ts : List Token}

/-- The end of a line comes behind a token that is none. -/
theorem newline_behind (h : Framed source fit said ts) {before after : List Token} {t : Token}
    (hts : ts = before ++ t :: after) (ht : t.kind = .newline) : before = [] ∧ said = true ∨
      ∃ us u, before = us ++ [u] ∧ u.kind ≠ .newline ∧ (fit → u.kind.isSolid = true) := by
  induction h generalizing before with
  | finish plain => exact absurd ht (plain t (by simp [hts]))
  | @solid said v ts solid _ ih =>
    cases before with
    | nil =>
      obtain ⟨rfl, -⟩ := List.cons.inj hts
      simp [ht, TokenKind.isSolid] at solid
    | cons b before =>
      obtain ⟨rfl, hts'⟩ := List.cons.inj hts
      rcases ih hts' with ⟨rfl, -⟩ | ⟨us, u, rfl, hu⟩
      · refine .inr ⟨[], v, rfl, ?_, fun _ => solid⟩
        intro hv
        simp [hv, TokenKind.isSolid] at solid
      · exact .inr ⟨v :: us, u, rfl, hu⟩
  | @newline v ts kind _ ih =>
    cases before with
    | nil => exact .inl ⟨rfl, rfl⟩
    | cons b before =>
      obtain ⟨rfl, hts'⟩ := List.cons.inj hts
      rcases ih hts' with ⟨-, hsaid⟩ | ⟨us, u, rfl, hu⟩
      · exact Bool.noConfusion hsaid
      · exact .inr ⟨v :: us, u, rfl, hu⟩
  | @heads first heads ts ne kinds stop next _ ih =>
    have hkinds : ∀ u ∈ heads, u.kind ≠ .newline := by
      intro u hu
      rcases kinds with ⟨v, rfl, hv⟩ | hdedent
      · simp [List.mem_singleton.1 hu, hv]
      · simp [hdedent u hu]
    rcases append_eq_append_cons hts with ⟨ds, rfl, hts'⟩ | ⟨ds, hheads, -⟩
    · right
      rcases ih hts' with ⟨rfl, -⟩ | ⟨us, u, rfl, hu⟩
      · have hlast : heads ++ [] = heads.dropLast ++ [heads.getLast ne] := by
          rw [List.append_nil, List.dropLast_concat_getLast]
        refine ⟨_, _, hlast, hkinds _ (List.getLast_mem ne), fun h => ?_⟩
        obtain ⟨u, us, gap, rfl, hsolid, -⟩ := next h
        obtain ⟨rfl, -⟩ := List.cons.inj hts'
        simp [ht, TokenKind.isSolid] at hsolid
      · exact ⟨heads ++ us, u, (List.append_assoc ..).symm, hu⟩
    · exact absurd ht (hkinds t (by simp [hheads]))

/-- The tokens at the head of a line come before one of its own. -/
theorem leadsOn (h : Framed source fit said ts) (hfit : fit) {before after : List Token}
    {t : Token} (hts : ts = before ++ t :: after) (ht : t.kind = .indent ∨ t.kind = .dedent)
    (hstop : t.span.stop.offset < byteLength source) : LeadsOn source t after := by
  induction h generalizing before with
  | finish _ ends => exact absurd (ends hfit t (by simp [hts])) (Nat.not_le.2 hstop)
  | @solid said v ts solid _ ih =>
    cases before with
    | nil =>
      obtain ⟨rfl, -⟩ := List.cons.inj hts
      rcases ht with ht | ht <;> simp [ht, TokenKind.isSolid] at solid
    | cons b before => exact ih (List.cons.inj hts).2
  | @newline v ts kind _ ih =>
    cases before with
    | nil =>
      obtain ⟨rfl, -⟩ := List.cons.inj hts
      rcases ht with ht | ht <;> simp [ht] at kind
    | cons b before => exact ih (List.cons.inj hts).2
  | @heads first heads ts ne kinds stop next _ ih =>
    rcases append_eq_append_cons hts with ⟨ds, rfl, hts'⟩ | ⟨ds, hheads, rfl⟩
    · exact ih hts'
    · obtain ⟨u, us, gap, rfl, hsolid, hslice, hgap⟩ := next hfit
      refine ⟨ds, u, us, gap, rfl, fun d hd => ?_, hsolid, ?_, hgap⟩
      · rcases kinds with ⟨v, rfl, -⟩ | hdedent
        · -- a block begins with one token
          have hlength := congrArg List.length hheads
          simp only [List.length_append, List.length_cons, List.length_nil] at hlength
          rw [List.eq_nil_of_length_eq_zero (by omega : ds.length = 0)] at hd
          simp at hd
        · exact hdedent d (by simp [hheads, hd])
      · rw [stop hfit t (by simp [hheads])]
        exact hslice

end Framed

/-- The layout tokens of a line stand around its own tokens. -/
structure FramesLines (source : List Char) (ts : List Token) : Prop where
  /-- The end of a line comes right behind a token of it. -/
  newline : ∀ before t after, ts = before ++ t :: after → t.kind = .newline →
    ∃ us u, before = us ++ [u] ∧ u.kind.isSolid = true
  /-- Before the end of the source the tokens at the head of a line come before a token of it. -/
  head : ∀ before t after, ts = before ++ t :: after → t.kind = .indent ∨ t.kind = .dedent →
    t.span.stop.offset < byteLength source → LeadsOn source t after
  /-- No token begins on a line of skipped text. -/
  void : ∀ a line rest, source = a ++ line ++ rest → byteLength a ∈ lineStarts source →
    VoidLine rest line →
    ∀ t ∈ ts, ¬(byteLength a ≤ t.span.start.offset ∧
      t.span.start.offset < byteLength (a ++ line))

/-- The end of a line never comes first, nor right behind the end of a line. In a source with less
than 4 GiB the layout tokens of a line stand around its own tokens exactly where hollow lines are as
wide as the line before them. -/
theorem tokens_frame_lines {source : List Char} {file : String} {ts : List Token}
    (h : tokens source file = .ok ts) :
    (∀ before t after, ts = before ++ t :: after → t.kind = .newline →
      ∃ us u, before = us ++ [u] ∧ u.kind ≠ .newline) ∧
    (byteLength source < 2 ^ 32 →
      (FramesLines source ts ↔ HollowsFit source 0 (logicalLines source))) := by
  have hfresh := Scanner.Fresh.start source file
  have hframed : Framed source (byteLength source < 2 ^ 32 ∧
      HollowsFit source 0 (logicalLines source)) false ts :=
    Scanner.run_framed (fun h => .start h.1 file) hfresh h And.right
  have hbehind {before after : List Token} {t : Token} (hts : ts = before ++ t :: after)
      (ht : t.kind = .newline) := (hframed.newline_behind hts ht).resolve_left (by simp)
  refine ⟨fun before t after hts ht => ?_,
    fun hshort => ⟨fun hframes => ?_, fun hfit => ⟨?_, ?_, ?_⟩⟩⟩
  · obtain ⟨us, u, hbefore, hu, -⟩ := hbehind hts ht
    exact ⟨us, u, hbefore, hu⟩
  · by_contra hfit
    have hs : Scanner.At source (.start source file) := .start hshort file
    obtain ⟨us, t, u, vs, rfl, ht, hu⟩ := Scanner.run_stray hs hfresh h hfit
    obtain ⟨us', v, hbefore, hsolid⟩ :=
      hframes.newline (us ++ [t]) u vs (List.append_cons us t (u :: vs)) hu
    obtain rfl : t = v := by simpa using (List.append_inj' hbefore rfl).2
    rcases ht with ht | ht <;> simp [ht, TokenKind.isSolid] at hsolid
  · intro before t after hts ht
    obtain ⟨us, u, hbefore, -, hu⟩ := hbehind hts ht
    exact ⟨us, u, hbefore, hu ⟨hshort, hfit⟩⟩
  · intro before t after hts ht hstop
    exact hframed.leadsOn ⟨hshort, hfit⟩ hts ht hstop
  · intro a line rest hsource hstart hline t ht
    have hs : Scanner.At source (.start source file) := .start hshort file
    have harrives : ∃ us m vs, ts = us ++ vs ∧ Scanner.Arrives (.start source file) us m ∧
        m.run = .ok vs ∧ m.offset = byteLength a ∧ m.atLineStart = true := by
      rcases List.mem_cons.1 hstart with hzero | hlater
      · exact ⟨[], _, ts, rfl, .here _, h, hzero.symm, rfl⟩
      · obtain ⟨us, m, vs, hts, harrive, -, hrun, hm, hfirst, -⟩ :=
          Scanner.arrives_line (s := .start source file) h hlater
        exact ⟨us, m, vs, hts, harrive, hrun, hm, hfirst⟩
    obtain ⟨us, m, vs, rfl, harrive, hrun, hm, hfirst⟩ := harrives
    obtain ⟨hfresh', hfit'⟩ := harrive.fits hs hfresh hfit
    have hat := harrive.reaches.stands hs
    have hrest : m.rest = line ++ rest :=
      hat.rest_eq (hsource.trans (List.append_assoc a line rest)) hm
    rw [byteLength_append]
    rcases List.mem_append.1 ht with ht | ht
    · have hlt := harrive.start_lt t ht
      omega
    · have hle := Scanner.start_of_mute hat hfresh' hfirst hfit' hrest hline hrun t ht
      omega

/-- In a block a line with a form feed is as wide as the line before it. -/
theorem tokens_frame_lines_block :
    let source := "if x:\n  y\n  \x0c\n  z\n".toList
    let span (start stop : Nat) : Span := ⟨.ofOffset start "BUILD", .ofOffset stop "BUILD"⟩
    let ts : List Token := [⟨.keyword .if_, "if", span 0 2⟩, ⟨.identifier, "x", span 3 4⟩,
      ⟨.sign .colon, ":", span 4 5⟩, .layout .newline (span 5 6), .layout .indent (span 6 8),
      ⟨.identifier, "y", span 8 9⟩, .layout .newline (span 9 10), ⟨.identifier, "z", span 16 17⟩,
      .layout .newline (span 17 18), .layout .dedent (span 18 18), .endAt (.ofOffset 18 "BUILD")]
    tokens source "BUILD" = .ok ts ∧ FramesLines source ts := by
  intro source span ts
  have h : tokens source "BUILD" = .ok ts := by decide +kernel
  have hlines : logicalLines source = [⟨0, 0⟩, ⟨8, 2⟩, ⟨12, 2⟩, ⟨16, 2⟩] := by decide +kernel
  have hfit : HollowsFit source 0 (logicalLines source) := by
    rw [hlines]
    refine ⟨fun _ => rfl, fun hollow => ?_, fun _ => rfl, fun _ => rfl, trivial⟩
    have hbreak : 'y' ∈ breaks := Mute.stops hollow 'y' rfl
    exact absurd hbreak (by decide)
  have hshort : byteLength source < 2 ^ 32 := by decide +kernel
  exact ⟨h, ((tokens_frame_lines h).2 hshort).2 hfit⟩

/-- Behind a line without a block a form feed in a wider line begins a block and ends it. -/
theorem frames_lines_not :
    let source := "x\n  \x0c\ny\n".toList
    let span (start stop : Nat) : Span := ⟨.ofOffset start "BUILD", .ofOffset stop "BUILD"⟩
    let ts : List Token := [⟨.identifier, "x", span 0 1⟩, .layout .newline (span 1 2),
      .layout .indent (span 2 4), .layout .newline (span 5 6), .layout .dedent (span 6 6),
      ⟨.identifier, "y", span 6 7⟩, .layout .newline (span 7 8), .endAt (.ofOffset 8 "BUILD")]
    tokens source "BUILD" = .ok ts ∧ ¬FramesLines source ts := by
  intro source span ts
  refine ⟨by decide +kernel, fun hframes => ?_⟩
  obtain ⟨us, u, hbefore, hsolid⟩ := hframes.newline (ts.take 3) _ (ts.drop 4) rfl rfl
  obtain rfl : u = .layout .indent (span 2 4) := by
    have hlast := congrArg List.getLast? hbefore
    simpa [ts] using hlast.symm
  exact absurd hsolid (by decide)

end BuildTyping
