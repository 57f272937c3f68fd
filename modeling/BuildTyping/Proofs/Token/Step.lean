import BuildTyping.Proofs.Text.Slice
import BuildTyping.Proofs.Token.Spelling
import BuildTyping.Token.Scan
import Mathlib.Algebra.Group.Nat.Defs

/-!
# Steps of a scanner

Where a scanner stands in its source, and what it changes and emits when it opens a line, reads a
lexeme and does both.
-/

namespace BuildTyping

/-- A token lies in a file with both its ends. -/
def Token.InFile (t : Token) (file : String) : Prop :=
  t.span.start.file = file ∧ t.span.stop.file = file

/-- The kind and the value of a token and the two ends of its span. -/
def Token.placed (t : Token) : TokenKind × String × Nat × Nat := (t.kind, t.value, t.span.offsets)

/-- The number of open brackets behind a lexeme. -/
def Lexeme.depthAfter (depth : Nat) : Lexeme → Nat
  | opening _ => depth + 1
  | closing _ => depth - 1
  | _ => depth

namespace Scanner

/-- The scanner stands in the source behind what it has read, and its offsets are words. -/
structure At (source : List Char) (s : Scanner) : Prop where
  short : byteLength source < 2 ^ 32
  split : ∃ read, source = read ++ s.rest ∧ s.offset = byteLength read

variable {source : List Char} {s s' : Scanner} {ts : List Token} {n : Nat}

theorem At.start (h : byteLength source < 2 ^ 32) (file : String) :
    At source (start source file) :=
  ⟨h, [], rfl, rfl⟩

theorem At.boundary (h : At source s) : isBoundary s.offset source = true := by
  obtain ⟨-, read, rfl, ho⟩ := h
  rw [ho]
  exact isBoundary_append read s.rest

theorem At.offset_le (h : At source s) : s.offset ≤ byteLength source := by
  obtain ⟨-, read, rfl, ho⟩ := h
  rw [ho, byteLength_append]
  exact Nat.le_add_right _ _

theorem At.offset_eq (h : At source s) (hr : s.rest = []) : s.offset = byteLength source := by
  obtain ⟨-, read, rfl, ho⟩ := h
  rw [ho, hr, List.append_nil]

theorem At.offset_lt (h : At source s) : s.offset < 2 ^ 32 :=
  Nat.lt_of_le_of_lt h.offset_le h.short

/-- Where a scanner stands its position tells the offset. -/
theorem At.offset_position (h : At source s) (s' : Scanner) :
    (s'.position s.offset).offset = s.offset :=
  Position.offset_ofOffset h.offset_lt s'.file

/-- Scanners of one file agree on positions. -/
theorem position_congr (h : s'.file = s.file) : s'.position = s.position := by
  funext offset
  rw [position, position, h]

theorem offsets_spanFrom {offset length : Nat} (h : offset + length < 2 ^ 32) (s : Scanner) :
    (s.spanFrom offset length).offsets = (offset, offset + length) := by
  rw [Span.offsets, spanFrom, position, position, Position.offset_ofOffset h,
    Position.offset_ofOffset (Nat.lt_of_le_of_lt (Nat.le_add_right offset length) h)]

theorem placed_spanFrom {offset length : Nat} (h : offset + length < 2 ^ 32) (s : Scanner)
    (kind : TokenKind) (value : String) :
    Token.placed ⟨kind, value, s.spanFrom offset length⟩ = (kind, value, offset, offset + length) :=
  congrArg (fun offsets => (kind, value, offsets)) (offsets_spanFrom h s)

theorem placed_layout {offset length : Nat} (h : offset + length < 2 ^ 32) (s : Scanner)
    (kind : TokenKind) :
    (s.layout kind offset length).placed = (kind, "", offset, offset + length) :=
  placed_spanFrom h s kind ""

theorem placed_endAt {offset : Nat} (h : offset < 2 ^ 32) (s : Scanner) :
    (Token.endAt (s.position offset)).placed = (.endOfSource, "EOF", offset, offset) := by
  have hempty : offset + 0 < 2 ^ 32 := h
  exact placed_spanFrom hempty s .endOfSource "EOF"

/-- A scanner moves by whole characters. -/
structure Skips (s : Scanner) (n : Nat) (s' : Scanner) : Prop where
  rest : s'.rest = s.rest.drop n
  offset : s'.offset = s.offset + byteLength (s.rest.take n)

theorem Skips.at (h : s.Skips n s') (hs : At source s) : At source s' := by
  obtain ⟨hshort, read, hsrc, ho⟩ := hs
  refine ⟨hshort, read ++ s.rest.take n, ?_, ?_⟩
  · rw [h.rest, List.append_assoc, List.take_append_drop, hsrc]
  · rw [h.offset, ho, byteLength_append]

/-- The span of what is skipped. -/
theorem Skips.offsets (h : s.Skips n s') (hs : At source s) (m : Scanner) :
    Span.offsets ⟨m.position s.offset, m.position s'.offset⟩ = (s.offset, s'.offset) := by
  rw [Span.offsets, hs.offset_position, (h.at hs).offset_position]

theorem Skips.add_le (h : s.Skips n s') (hn : n ≤ s.rest.length) : s.offset + n ≤ s'.offset := by
  have hl := length_le_byteLength (s.rest.take n)
  rw [List.length_take_of_le hn] at hl
  rw [h.offset]
  omega

theorem At.dropBytes (hs : At source s) : dropBytes s.offset source = s.rest := by
  obtain ⟨-, read, rfl, ho⟩ := hs
  rw [ho, dropBytes_append]

theorem At.rest_eq {before rest : List Char} (hs : At source s) (hsource : source = before ++ rest)
    (ho : s.offset = byteLength before) : s.rest = rest := by
  rw [← hs.dropBytes, hsource, ho, dropBytes_append]

/-- What is skipped is the slice between the two places. -/
theorem Skips.slice (h : s.Skips n s') (hs : At source s) :
    slice? s.offset s'.offset source = some (s.rest.take n) := by
  obtain ⟨-, read, rfl, ho⟩ := hs
  refine slice?_eq_some_iff.2 ⟨read, s.rest.drop n, ?_, ho.symm, h.offset.symm⟩
  rw [List.append_assoc, List.take_append_drop]

/-- The spelling of a word is that of its keyword, if it is one. -/
theorem spells_word {text : List Char} (hne : text ≠ []) (span : Span) :
    Token.Spells ⟨match Keyword.ofText? (String.ofList text) with
      | some word => .keyword word
      | none => .identifier, String.ofList text, span⟩ text := by
  cases hk : Keyword.ofText? (String.ofList text) with
  | none => exact ⟨hne, String.toList_ofList⟩
  | some word =>
    have htext := Keyword.text_of_ofText? hk
    exact ⟨by rw [htext, String.toList_ofList], String.toList_ofList⟩

/-- What reading a lexeme changes. The lexeme is skipped whole, and it is trivia or its token covers
and spells it. -/
structure Passes (s : Scanner) (lexeme : Lexeme) (n : Nat) (ts : List Token) (s' : Scanner) :
    Prop where
  next : Lexeme.next? s.rest = some (lexeme, n)
  closed : lexeme ≠ .unterminated
  skips : s.Skips n s'
  file : s'.file = s.file
  blocks : s'.blocks = s.blocks
  depth : s'.brackets.length = lexeme.depthAfter s.brackets.length
  atLineStart : s'.atLineStart = (s.atLineStart || lexeme = .lineEnd && s.brackets.isEmpty)
  emits : ts = [] ∧ Trivia (s.rest.drop n) (s.rest.take n) ∧ s'.lineOpen = s.lineOpen ∨
    lexeme ≠ .gap ∧ ∃ t : Token, ts = [t] ∧
      t.span = ⟨s.position s.offset, s.position s'.offset⟩ ∧
      t.Spells (s.rest.take n) ∧ (t.kind = .newline ∨ t.kind.isSolid = true) ∧
      s'.lineOpen = t.kind.isSolid

/-- A lexeme with a token of its own may change the open brackets, and opens the line. -/
theorem emit_passes {lexeme : Lexeme} {kind : TokenKind} {value : List Char} {bs : List Bracket}
    (hn : Lexeme.next? s.rest = some (lexeme, n))
    (hlexeme : lexeme ≠ .gap ∧ lexeme ≠ .lineEnd ∧ lexeme ≠ .unterminated)
    (hbs : bs.length = lexeme.depthAfter s.brackets.length) (hkind : kind.isSolid = true)
    (hspells : ∀ span, Token.Spells ⟨kind, String.ofList value, span⟩ (s.rest.take n)) :
    s.Passes lexeme n ({ s with brackets := bs }.emit kind value n).1
      ({ s with brackets := bs }.emit kind value n).2 := by
  obtain ⟨hgap, hend, hclosed⟩ := hlexeme
  exact ⟨hn, hclosed, ⟨rfl, rfl⟩, rfl, rfl, hbs, by simp [emit, skip, hend],
    .inr ⟨hgap, _, rfl, rfl, hspells _, .inr hkind, hkind.symm⟩⟩

theorem readLexeme_passes (h : s.readLexeme = .ok (ts, s')) :
    ∃ lexeme n, s.Passes lexeme n ts s' := by
  simp only [readLexeme] at h
  split at h
  · simp at h
  · rename_i lexeme n hn
    have hreads := Lexeme.reads_of_next? hn
    have hne : s.rest.take n ≠ [] := by
      obtain ⟨hpos, hle⟩ := Lexeme.next?_bounds hn
      rw [← List.length_pos_iff, List.length_take_of_le hle]
      exact hpos
    refine ⟨lexeme, n, ?_⟩
    cases lexeme with
    | gap =>
      cases h
      exact ⟨hn, by simp, ⟨rfl, rfl⟩, rfl, rfl, rfl, by simp [skip],
        .inl ⟨rfl, Lexeme.trivia_of_gap hn, rfl⟩⟩
    | lineEnd =>
      have heol := Lexeme.isLineEnd_of_lineEnd hn
      have htrivia : Trivia (s.rest.drop n) (s.rest.take n) := by
        simpa using Trivia.lineEnd heol .nil
      simp only [endLine] at h
      split at h
      · rename_i hb
        cases h
        refine ⟨hn, by simp, ⟨rfl, rfl⟩, rfl, rfl, rfl, by simp [hb], ?_⟩
        split
        · exact .inr ⟨by simp, _, rfl, rfl, .inr heol, .inl rfl, rfl⟩
        · rename_i hopen
          rw [Bool.not_eq_true] at hopen
          exact .inl ⟨rfl, htrivia, hopen.symm⟩
      · rename_i hb
        cases h
        exact ⟨hn, by simp, ⟨rfl, rfl⟩, rfl, rfl, rfl, by simp [skip, hb],
          .inl ⟨rfl, htrivia, rfl⟩⟩
    | unterminated => simp at h
    | string =>
      cases h
      refine emit_passes hn (by simp) rfl rfl fun span => ?_
      simpa [Token.Spells] using Quotation.literal_of_length? hreads
    | number =>
      cases h
      refine emit_passes hn (by simp) rfl (by split <;> rfl) fun span => ?_
      split <;> exact ⟨hne, String.toList_ofList⟩
    | word =>
      cases h
      exact emit_passes hn (by simp) rfl (by split <;> rfl) (spells_word hne)
    | opening b =>
      cases h
      exact emit_passes hn (by simp) rfl rfl fun span => ⟨hreads, String.toList_ofList⟩
    | closing b =>
      simp only at h
      split at h
      · cases h
        exact emit_passes hn (by simp) List.length_tail rfl
          fun span => ⟨hreads, String.toList_ofList⟩
      · simp at h
    | sign sign =>
      cases h
      exact emit_passes hn (by simp) rfl rfl fun span => ⟨hreads, String.toList_ofList⟩

/-- The tokens of lexemes neither begin nor end blocks, and do not end the source. -/
theorem Passes.plain {lexeme : Lexeme} (h : s.Passes lexeme n ts s') {t : Token} (ht : t ∈ ts) :
    t.kind ≠ .indent ∧ t.kind ≠ .dedent ∧ t.kind ≠ .endOfSource := by
  rcases h.emits with ⟨rfl, -⟩ | ⟨-, u, rfl, -, -, hkind, -⟩
  · simp at ht
  · obtain rfl := List.mem_singleton.1 ht
    refine ⟨?_, ?_, ?_⟩ <;>
      · intro hk
        simp [hk, TokenKind.isSolid] at hkind

theorem indentation_le_countWhile (cs : List Char) :
    (indentation cs).length ≤ Numeral.countWhile Lexeme.isSpace cs := by
  induction cs with
  | nil => simp [indentation]
  | cons c cs ih =>
    simp only [indentation, Numeral.countWhile, List.takeWhile_cons] at ih ⊢
    split
    · rename_i hc
      have hs : Lexeme.isSpace c = true := by simp [Lexeme.isSpace, hc]
      simp only [hs, if_true, List.length_cons]
      omega
    · simp

/-- Indentation is read as a gap of white space, which may reach further. -/
theorem next?_of_indentation {cs : List Char} {lexeme : Lexeme} {n : Nat}
    (hn : Lexeme.next? cs = some (lexeme, n)) (hi : indentation cs ≠ []) :
    lexeme = .gap ∧ n = Numeral.countWhile Lexeme.isSpace cs := by
  cases cs with
  | nil => simp [indentation] at hi
  | cons c cs =>
    have hle := indentation_le_countWhile (c :: cs)
    have hpos := List.length_pos_iff.2 hi
    have hc : c = ' ' ∨ c = '\t' := by
      simp only [indentation, List.takeWhile_cons] at hi
      split at hi
      · rename_i hc
        simpa using hc
      · simp at hi
    have hgap : Lexeme.gapLength (c :: cs) = Numeral.countWhile Lexeme.isSpace (c :: cs) := by
      unfold Lexeme.gapLength
      split <;> simp_all
    simp only [Lexeme.next?, hgap] at hn
    rw [if_pos (by omega)] at hn
    cases hn
    exact ⟨rfl, rfl⟩

theorem byteLength_indentation (cs : List Char) :
    byteLength (indentation cs) = (indentation cs).length := by
  induction cs with
  | nil => rfl
  | cons c cs ih =>
    simp only [indentation, List.takeWhile_cons] at ih ⊢
    split
    · rename_i hc
      have h1 : c.utf8Size = 1 := by
        simp only [Bool.or_eq_true, beq_iff_eq] at hc
        rcases hc with rfl | rfl <;> rfl
      rw [byteLength_cons, h1, ih, List.length_cons, Nat.add_comm]
    · rfl

theorem take_indentation (cs : List Char) :
    cs.take (indentation cs).length = indentation cs :=
  (List.prefix_iff_eq_take.1 (List.takeWhile_prefix _)).symm

theorem indentation_append_drop (cs : List Char) :
    indentation cs ++ cs.drop (indentation cs).length = cs :=
  List.prefix_iff_eq_append.1 (List.takeWhile_prefix _)

theorem blank_of_mem_indentation {cs : List Char} {c : Char} (hc : c ∈ indentation cs) :
    c = ' ' ∨ c = '\t' := by
  simpa using List.mem_takeWhile_imp hc

/-- The scanner behind the indentation. -/
theorem skips_indentation (s : Scanner) : s.Skips (indentation s.rest).length
    { s with
      offset := s.offset + (indentation s.rest).length
      rest := s.rest.drop (indentation s.rest).length } :=
  ⟨rfl, by rw [take_indentation, byteLength_indentation]⟩

/-- The position behind the indentation tells its offset. -/
theorem At.offset_indentation (h : At source s) :
    (s.position (s.offset + (indentation s.rest).length)).offset =
      s.offset + (indentation s.rest).length :=
  (s.skips_indentation.at h).offset_position s

/-- A lexeme that is longer than the indentation ends behind it. -/
theorem Skips.behind_indentation (h : s.Skips n s') (hle : (indentation s.rest).length ≤ n) :
    Skips { s with
      offset := s.offset + (indentation s.rest).length
      rest := s.rest.drop (indentation s.rest).length } (n - (indentation s.rest).length) s' := by
  obtain ⟨m, rfl⟩ := Nat.exists_eq_add_of_le hle
  rw [Nat.add_sub_cancel_left]
  refine ⟨?_, ?_⟩
  · rw [h.rest, List.drop_drop]
  · rw [h.offset, List.take_add, byteLength_append, take_indentation, byteLength_indentation,
      Nat.add_assoc]

/-- Before a line that is not blank a block may begin or some may end, and nothing is read. -/
theorem openLine_cases (h : s.openLine = .ok (ts, s')) :
    isBlankLine (s.rest.drop (indentation s.rest).length) = true ∧ ts = [] ∧ s' = s ∨
    isBlankLine (s.rest.drop (indentation s.rest).length) = false ∧
      (∃ blocks, s' = { s with
        blocks := blocks, atLineStart := false, lineOpen := s.lineOpen || !ts.isEmpty }) ∧
      (ts = [s.layout .indent s.offset (indentation s.rest).length] ∨
        ∃ n, ts = List.replicate n
          (s.layout .dedent (s.offset + (indentation s.rest).length) 0)) := by
  simp only [openLine] at h
  split at h
  · rename_i hb
    cases h
    exact .inl ⟨hb, rfl, rfl⟩
  · rename_i hb
    refine .inr ⟨by simpa using hb, ?_⟩
    split at h
    · cases h
      exact ⟨⟨columnAfter (indentation s.rest) :: s.blocks, by simp⟩, .inl rfl⟩
    · split at h
      · cases h
        exact ⟨⟨_, rfl⟩, .inr ⟨_, rfl⟩⟩
      · simp at h

/-- A step reads a lexeme, at the start of a line outside brackets after the layout. -/
theorem step_ok : s.step = .ok (ts, s') ↔
    (s.atLineStart && s.brackets.isEmpty) = true ∧ (∃ layout mid us,
      s.openLine = .ok (layout, mid) ∧ mid.readLexeme = .ok (us, s') ∧ ts = layout ++ us) ∨
    (s.atLineStart && s.brackets.isEmpty) = false ∧ s.readLexeme = .ok (ts, s') := by
  cases hc : s.atLineStart && s.brackets.isEmpty with
  | false => simp [step, hc]
  | true =>
    simp only [step, hc, if_true]
    cases ho : s.openLine with
    | error fault => simp [bind, Except.bind]
    | ok opened =>
      obtain ⟨layout, mid⟩ := opened
      cases hr : mid.readLexeme with
      | error fault => simp [hr, bind, Except.bind]
      | ok after =>
        obtain ⟨us, after⟩ := after
        simp [hr, bind, Except.bind, pure, Except.pure]
        grind

theorem brackets_openLine (h : s.openLine = .ok (ts, s')) : s'.brackets = s.brackets := by
  rcases openLine_cases h with ⟨-, -, rfl⟩ | ⟨-, ⟨blocks, rfl⟩, -⟩ <;> rfl

theorem file_openLine (h : s.openLine = .ok (ts, s')) : s'.file = s.file := by
  rcases openLine_cases h with ⟨-, -, rfl⟩ | ⟨-, ⟨blocks, rfl⟩, -⟩ <;> rfl

/-- A scanner stays in its file, and all that it emits lies there. -/
theorem file_step (h : s.step = .ok (ts, s')) :
    s'.file = s.file ∧ ∀ t ∈ ts, t.InFile s.file := by
  have hread {s₁ s₂ : Scanner} {us : List Token} (hr : s₁.readLexeme = .ok (us, s₂)) :
      s₂.file = s₁.file ∧ ∀ t ∈ us, t.InFile s₁.file := by
    obtain ⟨lexeme, n, hpass⟩ := readLexeme_passes hr
    refine ⟨hpass.file, fun t ht => ?_⟩
    rcases hpass.emits with ⟨rfl, -⟩ | ⟨-, u, rfl, hspan, -⟩
    · simp at ht
    · rw [List.mem_singleton.1 ht, Token.InFile, hspan]
      exact ⟨rfl, rfl⟩
  rcases step_ok.1 h with ⟨-, layout, mid, us, ho, hr, rfl⟩ | ⟨-, hr⟩
  · obtain ⟨hfile, hus⟩ := hread hr
    rw [file_openLine ho] at hfile hus
    refine ⟨hfile, List.forall_mem_append.2 ⟨fun t ht => ?_, hus⟩⟩
    rcases openLine_cases ho with ⟨-, rfl, -⟩ | ⟨-, -, rfl | ⟨n, rfl⟩⟩
    · simp at ht
    · rw [List.mem_singleton.1 ht]
      exact ⟨rfl, rfl⟩
    · rw [List.eq_of_mem_replicate ht]
      exact ⟨rfl, rfl⟩
  · exact hread hr

theorem rest_step (h : s.step = .ok (ts, s')) : ∃ n, s'.rest = s.rest.drop n := by
  rcases step_ok.1 h with ⟨-, layout, mid, us, ho, hr, -⟩ | ⟨-, hr⟩
  · obtain ⟨lexeme, n, hpass⟩ := readLexeme_passes hr
    exact ⟨n, by rw [hpass.skips.rest, rest_openLine ho]⟩
  · obtain ⟨lexeme, n, hpass⟩ := readLexeme_passes hr
    exact ⟨n, hpass.skips.rest⟩

theorem rest_ne_nil_of_step (h : s.step = .ok (ts, s')) : s.rest ≠ [] := by
  intro hnil
  have hlt := length_step h
  simp [hnil] at hlt

theorem run_nil (hr : s.rest = []) : s.run = .ok s.finish := by
  rw [run, if_pos hr]

theorem run_step (hne : s.rest ≠ []) : s.run = match s.step with
    | .error fault => .error fault
    | .ok (ts, s') => s'.run.map (ts ++ ·) := by
  rw [run, if_neg hne]
  split <;> simp [*]

/-- A scanner that makes the same step has the same tokens ahead. -/
theorem run_eq_of_step (hne : s.rest ≠ []) (hne' : s'.rest ≠ []) (h : s.step = s'.step) :
    s.run = s'.run := by
  rw [run_step hne, run_step hne', h]

/-- Before its end a source is read by a step and what comes after it. -/
theorem run_ok (hne : s.rest ≠ []) : s.run = .ok ts ↔
    ∃ first s' more, s.step = .ok (first, s') ∧ s'.run = .ok more ∧ ts = first ++ more := by
  rw [run_step hne]
  cases hstep : s.step with
  | error fault => simp
  | ok after =>
    obtain ⟨first, s'⟩ := after
    cases hrun : s'.run with
    | error fault => simp [hrun, Except.map]
    | ok more =>
      simp only [hrun, Except.map, Except.ok.injEq, Prod.mk.injEq]
      constructor
      · rintro rfl
        exact ⟨first, s', more, ⟨rfl, rfl⟩, hrun, rfl⟩
      · rintro ⟨_, _, others, ⟨rfl, rfl⟩, hothers, rfl⟩
        rw [hrun] at hothers
        cases hothers
        rfl

/-- What holds at the end of a source, and of a step with the run behind it, holds of every run. -/
@[elab_as_elim]
theorem run_induction {motive : (s : Scanner) → (ts : List Token) → s.run = .ok ts → Prop}
    (finish : ∀ s (hr : s.rest = []), motive s s.finish (run_nil hr))
    (step : ∀ s first s' more (hr : s.rest ≠ []) (hstep : s.step = .ok (first, s'))
      (hrun : s'.run = .ok more), motive s' more hrun →
        motive s (first ++ more) ((run_ok hr).2 ⟨first, s', more, hstep, hrun, rfl⟩))
    (h : s.run = .ok ts) : motive s ts h := by
  induction s using run.induct generalizing ts with
  | case1 s hr =>
    have hts := (run_nil hr).symm.trans h
    cases hts
    exact finish s hr
  | case2 s hr fault hstep =>
    obtain ⟨first, s', more, hfirst, -⟩ := (run_ok hr).1 h
    rw [hstep] at hfirst
    cases hfirst
  | case3 s hr first s' hstep ih =>
    obtain ⟨_, _, more, hfirst, hrun, rfl⟩ := (run_ok hr).1 h
    cases hstep.symm.trans hfirst
    exact step s first s' more hr hstep hrun (ih hrun)

/-- All tokens that a scanner emits lie in its file. -/
theorem inFile_run (h : s.run = .ok ts) : ∀ t ∈ ts, t.InFile s.file := by
  induction h using run_induction with
  | finish s hr =>
    have hlayout (kind : TokenKind) : (s.layout kind s.offset 0).InFile s.file := ⟨rfl, rfl⟩
    simp only [finish, List.mem_append, List.mem_ite_nil_right, List.mem_singleton,
      List.mem_replicate]
    rintro t ((⟨-, rfl⟩ | ⟨-, rfl⟩) | rfl)
    · exact hlayout .newline
    · exact hlayout .dedent
    · exact ⟨rfl, rfl⟩
  | step s first s' more hr hstep hrun ih =>
    obtain ⟨hfile, hfirst⟩ := file_step hstep
    exact List.forall_mem_append.2 ⟨hfirst, hfile ▸ ih⟩

end Scanner

end BuildTyping
