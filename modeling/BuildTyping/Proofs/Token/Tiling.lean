import BuildTyping.Proofs.Token.Step

/-!
# Tokens tile the source

The tokens of a source follow one another without overlap, each between two boundaries of
characters and with the text that it spells, and nothing but trivia stands between them.
-/

namespace BuildTyping

/-- The ends of a token are boundaries in order, and apart if the token is solid. -/
structure Token.Fits (source : List Char) (t : Token) : Prop where
  start : isBoundary t.span.start.offset source = true
  stop : isBoundary t.span.stop.offset source = true
  le : t.span.start.offset ≤ t.span.stop.offset
  lt : t.kind.isSolid = true → t.span.start.offset < t.span.stop.offset

/-- The tokens lie between two offsets, each behind the one before it. -/
inductive Tiles (source : List Char) : Nat → List Token → Nat → Prop where
  | nil {lo hi : Nat} (le : lo ≤ hi) : Tiles source lo [] hi
  | cons {lo hi : Nat} {t : Token} {ts : List Token} (le : lo ≤ t.span.start.offset)
      (fits : t.Fits source) (rest : Tiles source t.span.stop.offset ts hi) :
      Tiles source lo (t :: ts) hi

namespace Tiles

variable {source : List Char} {lo mid hi : Nat} {ts us : List Token}

theorem le (h : Tiles source lo ts hi) : lo ≤ hi := by
  induction h with
  | nil le => exact le
  | cons le fits _ ih => exact Nat.le_trans le (Nat.le_trans fits.le ih)

theorem mono_left {lo' : Nat} (hlo : lo' ≤ lo) (h : Tiles source lo ts hi) :
    Tiles source lo' ts hi := by
  cases h with
  | nil le => exact .nil (Nat.le_trans hlo le)
  | cons le fits rest => exact .cons (Nat.le_trans hlo le) fits rest

theorem append (h : Tiles source lo ts mid) (h' : Tiles source mid us hi) :
    Tiles source lo (ts ++ us) hi := by
  induction h with
  | nil le => exact h'.mono_left le
  | cons le fits _ ih => exact .cons le fits (ih h')

/-- Tiles in two parts meet at an offset between them. -/
theorem split (h : Tiles source lo (ts ++ us) hi) :
    ∃ mid, Tiles source lo ts mid ∧ Tiles source mid us hi := by
  induction ts generalizing lo with
  | nil => exact ⟨lo, .nil (Nat.le_refl lo), h⟩
  | cons t ts ih =>
    cases h with
    | cons le fits rest =>
      obtain ⟨mid, hts, hus⟩ := ih rest
      exact ⟨mid, .cons le fits hts, hus⟩

theorem single {t : Token} (hlo : lo ≤ t.span.start.offset) (fits : t.Fits source)
    (hhi : t.span.stop.offset ≤ hi) : Tiles source lo [t] hi :=
  .cons hlo fits (.nil hhi)

theorem le_of_mem (h : Tiles source lo ts hi) {t : Token} (ht : t ∈ ts) :
    lo ≤ t.span.start.offset := by
  induction h with
  | nil => simp at ht
  | cons le fits _ ih =>
    rcases List.mem_cons.1 ht with rfl | ht
    · exact le
    · exact Nat.le_trans le (Nat.le_trans fits.le (ih ht))

theorem pairwise (h : Tiles source lo ts hi) :
    ts.Pairwise fun t u => t.span.stop.offset ≤ u.span.start.offset := by
  induction h with
  | nil => exact .nil
  | cons le fits rest ih => exact .cons (fun u hu => rest.le_of_mem hu) ih

theorem stop_le (h : Tiles source lo ts hi) {t : Token} (ht : t ∈ ts) :
    t.span.stop.offset ≤ hi := by
  induction h with
  | nil => simp at ht
  | cons le fits rest ih =>
    rcases List.mem_cons.1 ht with rfl | ht
    · exact rest.le
    · exact ih ht

theorem fits_of_mem (h : Tiles source lo ts hi) {t : Token} (ht : t ∈ ts) : t.Fits source := by
  induction h with
  | nil => simp at ht
  | cons le fits rest ih =>
    rcases List.mem_cons.1 ht with rfl | ht
    · exact fits
    · exact ih ht

end Tiles

/-- Nothing but trivia stands between two offsets. -/
def OnlyTrivia (source : List Char) (lo hi : Nat) : Prop :=
  ∃ gap, slice? lo hi source = some gap ∧ Trivia (dropBytes hi source) gap

namespace OnlyTrivia

variable {source : List Char} {lo mid hi : Nat}

theorem refl (h : isBoundary lo source = true) : OnlyTrivia source lo lo :=
  ⟨[], slice?_refl h, .nil⟩

theorem trans (h : OnlyTrivia source lo mid) (h' : OnlyTrivia source mid hi) :
    OnlyTrivia source lo hi := by
  obtain ⟨gap, hslice, hgap⟩ := h
  obtain ⟨more, hslice', hmore⟩ := h'
  rw [dropBytes_of_slice? hslice'] at hgap
  exact ⟨gap ++ more, slice?_append hslice hslice', hgap.append hmore⟩

theorem le (h : OnlyTrivia source lo hi) : lo ≤ hi := by
  obtain ⟨gap, hslice, -⟩ := h
  have := length_of_slice? hslice
  omega

end OnlyTrivia

/-- The tokens stand between two offsets, each with the text that it spells and with nothing but
trivia before it and behind the last. -/
inductive Fills (source : List Char) : Nat → List Token → Nat → Prop where
  | nil {lo hi : Nat} (gap : OnlyTrivia source lo hi) : Fills source lo [] hi
  | cons {lo hi : Nat} {t : Token} {ts : List Token} {text : List Char}
      (gap : OnlyTrivia source lo t.span.start.offset)
      (slice : slice? t.span.start.offset t.span.stop.offset source = some text)
      (spells : t.Spells text) (rest : Fills source t.span.stop.offset ts hi) :
      Fills source lo (t :: ts) hi

namespace Fills

variable {source : List Char} {lo mid hi : Nat} {ts us : List Token}

theorem append (h : Fills source lo ts mid) (h' : Fills source mid us hi) :
    Fills source lo (ts ++ us) hi := by
  induction h with
  | nil gap =>
    cases h' with
    | nil gap' => exact .nil (gap.trans gap')
    | cons gap' slice spells rest => exact .cons (gap.trans gap') slice spells rest
  | cons gap slice spells _ ih => exact .cons gap slice spells (ih h')

/-- One token that spells what stands between the offsets. -/
theorem single {t : Token} {text : List Char} (hspan : t.span.offsets = (lo, hi))
    (slice : slice? lo hi source = some text) (spells : t.Spells text) :
    Fills source lo [t] hi := by
  obtain ⟨rfl, rfl⟩ := Prod.mk.inj hspan
  obtain ⟨hstart, hstop⟩ := isBoundary_of_slice? slice
  exact .cons (.refl hstart) slice spells (.nil (.refl hstop))

/-- Tokens of no width. -/
theorem replicate {t : Token} (n : Nat) (hspan : t.span.offsets = (hi, hi)) (spells : t.Spells [])
    (gap : OnlyTrivia source lo hi) (hhi : isBoundary hi source = true) :
    Fills source lo (List.replicate n t) hi := by
  induction n generalizing lo with
  | zero => exact .nil gap
  | succ n ih =>
    refine (Fills.nil gap).append ?_
    exact (Fills.single hspan (slice?_refl hhi) spells).append (ih (.refl hhi))

theorem tiles (h : Fills source lo ts hi) : Tiles source lo ts hi := by
  induction h with
  | nil gap => exact .nil gap.le
  | @cons lo hi t ts text gap slice spells _ ih =>
    obtain ⟨hstart, hstop⟩ := isBoundary_of_slice? slice
    have hlength := length_of_slice? slice
    refine .cons gap.le ⟨hstart, hstop, by omega, fun hs => ?_⟩ ih
    have hpos := List.length_pos_iff.2 (spells.ne_nil hs)
    have hle := length_le_byteLength text
    omega

theorem exists_text (h : Fills source lo ts hi) {t : Token} (ht : t ∈ ts) :
    ∃ text, slice? t.span.start.offset t.span.stop.offset source = some text ∧ t.Spells text := by
  induction h with
  | nil => simp at ht
  | cons gap slice spells rest ih =>
    rcases List.mem_cons.1 ht with rfl | ht
    · exact ⟨_, slice, spells⟩
    · exact ih ht

/-- Before each token there is nothing but trivia behind the one before it. -/
theorem gap {t : Token} (h : Fills source lo (ts ++ t :: us) hi) :
    OnlyTrivia source (ts.getLast?.elim lo fun u => u.span.stop.offset) t.span.start.offset := by
  induction ts generalizing lo with
  | nil =>
    cases h with
    | cons gap => exact gap
  | cons u ts ih =>
    cases h with
    | cons _ _ _ rest =>
      have hgap := ih rest
      cases hlast : ts.getLast? with
      | none =>
        obtain rfl := List.getLast?_eq_none_iff.1 hlast
        exact hgap
      | some v =>
        rw [List.getLast?_cons, hlast]
        simpa [hlast] using hgap

end Fills

namespace Scanner

variable {source : List Char} {s s' : Scanner} {ts : List Token} {n : Nat}

theorem Skips.separates (h : s.Skips n s') (hs : At source s)
    (htrivia : Trivia (s.rest.drop n) (s.rest.take n)) :
    OnlyTrivia source s.offset s'.offset := by
  refine ⟨_, h.slice hs, ?_⟩
  rwa [(h.at hs).dropBytes, h.rest]

/-- The tokens before a line fill its indentation, and the scanner has not read it yet. -/
theorem openLine_fills (hs : At source s) (h : s.openLine = .ok (ts, s')) :
    s'.rest = s.rest ∧ s'.offset = s.offset ∧
      (∀ t ∈ ts, t.kind ≠ .endOfSource) ∧
      Fills source s.offset ts (s.offset + (indentation s.rest).length) := by
  have hskips := s.skips_indentation
  have hslice := hskips.slice hs
  have hat := (hskips.at hs).offset_le
  have hshort := hs.short
  have hgap : OnlyTrivia source s.offset (s.offset + (indentation s.rest).length) := by
    refine hskips.separates hs (.of_spaces _ fun c hc => ?_)
    rw [take_indentation] at hc
    rcases blank_of_mem_indentation hc with rfl | rfl <;> rfl
  rcases openLine_cases h with ⟨-, rfl, rfl⟩ | ⟨-, ⟨blocks, rfl⟩, rfl | ⟨n, rfl⟩⟩
  · exact ⟨rfl, rfl, by simp, .nil hgap⟩
  · refine ⟨rfl, rfl, by simp, .single (offsets_spanFrom (by dsimp only at hat; omega) s) hslice ?_⟩
    rw [take_indentation]
    exact fun c hc => blank_of_mem_indentation hc
  · have hend := (hskips.at hs).boundary
    refine ⟨rfl, rfl, ?_, .replicate n (offsets_spanFrom (by dsimp only at hat; omega) s) rfl hgap
      hend⟩
    intro t ht
    rw [List.eq_of_mem_replicate ht]
    simp

/-- A lexeme fills what it skips. Where there is indentation it has no token, and what it skips
behind the indentation is trivia too. -/
theorem readLexeme_fills (hs : At source s) (h : s.readLexeme = .ok (ts, s')) :
    At source s' ∧ (∀ t ∈ ts, t.kind ≠ .endOfSource) ∧ Fills source s.offset ts s'.offset ∧
      (indentation s.rest ≠ [] → ts = [] ∧
        OnlyTrivia source (s.offset + (indentation s.rest).length) s'.offset) := by
  obtain ⟨lexeme, n, hpass⟩ := readLexeme_passes h
  refine ⟨hpass.skips.at hs, fun t ht => (hpass.plain ht).2.2, ?_⟩
  rcases hpass.emits with ⟨rfl, htrivia, -⟩ | ⟨hgap, t, rfl, hspan, hspells, -⟩
  · refine ⟨.nil (hpass.skips.separates hs htrivia), fun hi => ⟨rfl, ?_⟩⟩
    obtain ⟨-, rfl⟩ := next?_of_indentation hpass.next hi
    have hbehind := hpass.skips.behind_indentation (indentation_le_countWhile s.rest)
    refine hbehind.separates (s.skips_indentation.at hs) (.of_spaces _ fun c hc => ?_)
    rw [← List.drop_take, Numeral.take_countWhile] at hc
    exact List.mem_takeWhile_imp (List.mem_of_mem_drop hc)
  · have hoffsets := hpass.skips.offsets hs s
    rw [← hspan] at hoffsets
    refine ⟨.single hoffsets (hpass.skips.slice hs) hspells, fun hi => ?_⟩
    exact absurd (next?_of_indentation hpass.next hi).1 hgap

theorem step_fills (hs : At source s) (h : s.step = .ok (ts, s')) :
    At source s' ∧ (∀ t ∈ ts, t.kind ≠ .endOfSource) ∧ Fills source s.offset ts s'.offset := by
  rcases step_ok.1 h with ⟨-, layout, mid, us, ho, hr, rfl⟩ | ⟨-, hr⟩
  · obtain ⟨hrest, hoff, hkinds, hfills⟩ := openLine_fills hs ho
    have hmid : At source mid := by
      obtain ⟨hshort, read, hsrc, hread⟩ := hs
      exact ⟨hshort, read, by rw [hrest, hsrc], by rw [hoff, hread]⟩
    obtain ⟨hafter, hkinds', hfills', hindent⟩ := readLexeme_fills hmid hr
    rw [hrest, hoff] at hindent
    rw [hoff] at hfills'
    refine ⟨hafter, List.forall_mem_append.2 ⟨hkinds, hkinds'⟩, ?_⟩
    by_cases hi : indentation s.rest = []
    · rw [hi] at hfills
      exact hfills.append hfills'
    · obtain ⟨rfl, hgap⟩ := hindent hi
      exact hfills.append (.nil hgap)
  · obtain ⟨hafter, hkinds, hfills, -⟩ := readLexeme_fills hs hr
    exact ⟨hafter, hkinds, hfills⟩

/-- The tokens that end a source have no width. -/
theorem finish_fills (hs : At source s) (hr : s.rest = []) :
    Fills source s.offset s.finish (byteLength source) := by
  have hend := hs.boundary
  have hempty := slice?_refl hend
  have hspan : (s.spanFrom s.offset 0).offsets = (s.offset, s.offset) :=
    offsets_spanFrom hs.offset_lt s
  have hline : Fills source s.offset
      (if s.lineOpen then [s.layout .newline s.offset 0] else []) s.offset := by
    split
    · exact .single hspan hempty (.inl rfl)
    · exact .nil (.refl hend)
  have hblocks : Fills source s.offset
      (List.replicate s.blocks.length (s.layout .dedent s.offset 0)) s.offset :=
    .replicate s.blocks.length hspan rfl (.refl hend) hend
  rw [← hs.offset_eq hr]
  exact (hline.append hblocks).append (.single hspan hempty rfl)

theorem finish_ends (s : Scanner) :
    ∃ us, s.finish = us ++ [.endAt (s.position s.offset)] ∧ ∀ t ∈ us, t.kind ≠ .endOfSource := by
  refine ⟨_, rfl, ?_⟩
  intro t ht
  rcases List.mem_append.1 ht with ht | ht
  · split at ht
    · simp [List.mem_singleton.1 ht]
    · simp at ht
  · simp [List.eq_of_mem_replicate ht]

/-- From here to the end the tokens fill what is left, and only the last one marks the end. -/
theorem run_fills (hs : At source s) (h : s.run = .ok ts) :
    Fills source s.offset ts (byteLength source) ∧
      ∃ us, ts = us ++ [.endAt (s.position (byteLength source))] ∧
        ∀ t ∈ us, t.kind ≠ .endOfSource := by
  induction h using run_induction with
  | finish s hr =>
    refine ⟨finish_fills hs hr, ?_⟩
    rw [← hs.offset_eq hr]
    exact finish_ends s
  | step s first s' more hr hstep hrun ih =>
    obtain ⟨hs', hkinds, hfills⟩ := step_fills hs hstep
    obtain ⟨hrest, us, rfl, hus⟩ := ih hs'
    refine ⟨hfills.append hrest, first ++ us, by simp [position, (file_step hstep).1], ?_⟩
    intro t ht
    rcases List.mem_append.1 ht with ht | ht
    · exact hkinds t ht
    · exact hus t ht

end Scanner

/-- The tokens of a source fill it, and exactly the last one marks its end. -/
theorem tokens_fill {source : List Char} {file : String} {ts : List Token}
    (hshort : byteLength source < 2 ^ 32) (h : tokens source file = .ok ts) :
    Fills source 0 ts (byteLength source) ∧
      ∃ us, ts = us ++ [.endAt (.ofOffset (byteLength source) file)] ∧
        ∀ t ∈ us, t.kind ≠ .endOfSource :=
  Scanner.run_fills (.start hshort file) h

theorem tokens_tile {source : List Char} {file : String} {ts : List Token}
    (hshort : byteLength source < 2 ^ 32) (h : tokens source file = .ok ts) :
    Tiles source 0 ts (byteLength source) ∧
      ∃ us, ts = us ++ [.endAt (.ofOffset (byteLength source) file)] ∧
        ∀ t ∈ us, t.kind ≠ .endOfSource :=
  (tokens_fill hshort h).imp_left Fills.tiles

/-- Between them the tokens account for the whole text of a source. -/
structure CoversSource (source : List Char) (ts : List Token) : Prop where
  fits : ∀ t ∈ ts, t.Fits source ∧ t.span.stop.offset ≤ byteLength source
  apart : ts.Pairwise fun t u => t.span.stop.offset ≤ u.span.start.offset
  spells : ∀ t ∈ ts, ∃ text,
    slice? t.span.start.offset t.span.stop.offset source = some text ∧ t.Spells text
  /-- Before each token stands trivia only, up to the token before it or to the beginning. -/
  gaps : ∀ before t after, ts = before ++ t :: after →
    OnlyTrivia source (before.getLast?.elim 0 fun u => u.span.stop.offset) t.span.start.offset
  ends : ∃ us p, ts = us ++ [.endAt p] ∧ p.offset = byteLength source ∧
    ∀ t ∈ us, t.kind ≠ .endOfSource

/-- The tokens of a source with less than 4 GiB cover it: they lie in it in order and apart, each
with its text, and what stands between them is trivia. -/
theorem tokens_cover_source {source : List Char} {file : String} {ts : List Token}
    (hshort : byteLength source < 2 ^ 32) (h : tokens source file = .ok ts) :
    CoversSource source ts := by
  obtain ⟨hfills, us, hends, hus⟩ := tokens_fill hshort h
  have htiles := hfills.tiles
  refine ⟨fun t ht => ⟨htiles.fits_of_mem ht, htiles.stop_le ht⟩, htiles.pairwise,
    fun t ht => hfills.exists_text ht, ?_, us, _, hends, Position.offset_ofOffset hshort file, hus⟩
  rintro before t after rfl
  exact hfills.gap

/-- A comment with the first line end in its gap, a literal with a mark and an escape, a line end
behind a backslash and a block. -/
theorem tokens_cover_source_block :
    let source := "# ß\r\nif é:\n\tx = \\\n b'\\n'".toList
    byteLength source < 2 ^ 32 ∧ ∃ ts, tokens source "BUILD" = .ok ts ∧ CoversSource source ts ∧
      ts.map (fun t => (t.kind, t.value, t.span.offsets)) =
        [(.keyword .if_, "if", 6, 8), (.identifier, "é", 9, 11), (.sign .colon, ":", 11, 12),
          (.newline, "", 12, 13), (.indent, "", 13, 14), (.identifier, "x", 14, 15),
          (.sign .assign, "=", 16, 17), (.string, "\n", 21, 26), (.newline, "", 26, 26),
          (.dedent, "", 26, 26), (.endOfSource, "EOF", 26, 26)] := by
  intro source
  have hrun : (tokens source "BUILD").toOption.map
      (List.map fun t => (t.kind, t.value, t.span.offsets)) =
        some [(.keyword .if_, "if", 6, 8), (.identifier, "é", 9, 11), (.sign .colon, ":", 11, 12),
          (.newline, "", 12, 13), (.indent, "", 13, 14), (.identifier, "x", 14, 15),
          (.sign .assign, "=", 16, 17), (.string, "\n", 21, 26), (.newline, "", 26, 26),
          (.dedent, "", 26, 26), (.endOfSource, "EOF", 26, 26)] := by
    decide +kernel
  have hshort : byteLength source < 2 ^ 32 := by decide +kernel
  cases hts : tokens source "BUILD" with
  | error fault => simp [hts, Except.toOption] at hrun
  | ok ts =>
    rw [hts] at hrun
    exact ⟨hshort, ts, rfl, tokens_cover_source hshort hts, Option.some.inj hrun⟩

end BuildTyping
