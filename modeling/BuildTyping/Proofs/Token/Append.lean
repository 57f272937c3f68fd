import BuildTyping.Proofs.Token.Ahead
import BuildTyping.Proofs.Token.Tiling
import Mathlib.Data.List.Chain

/-!
# Tokens of a longer source

A source that ends with a line outside brackets keeps its tokens when text is appended to it, but
for those that close its blocks and mark its end.
-/

namespace BuildTyping

/-- Tokens that only close blocks and mark the end. -/
def Closing (ts : List Token) : Prop :=
  ∀ t ∈ ts, t.kind = .dedent ∨ t.kind = .endOfSource

/-- No two strings follow one another. -/
def Apart (ts : List Token) : Prop :=
  ts.IsChain fun t u => ¬(t.kind = .string ∧ u.kind = .string)

namespace Quotation

variable {cs : List Char}

theorem opens_of_length? {n : Nat} (h : length? cs = some n) : opens cs = true := by
  obtain ⟨m, hm, -⟩ := Option.map_eq_some_iff.1 h
  rw [opens]
  cases hd : cs.drop (markLength cs) with
  | nil => simp [hd, closedLength?] at hm
  | cons c ds =>
    cases hq : isQuote c with
    | false => simp [hd, closedLength?, hq] at hm
    | true => exact hq

/-- The first character of a literal is a quote or a mark. -/
theorem exists_cons_of_opens (h : opens cs = true) :
    ∃ c ds, cs = c :: ds ∧ (isQuote c = true ∨ isMark c = true) := by
  cases cs with
  | nil => simp [opens, markLength] at h
  | cons c ds =>
    by_cases hm : isMark c = true
    · exact ⟨c, ds, rfl, .inr hm⟩
    · exact ⟨c, ds, rfl, .inl (by simpa [opens, markLength, hm] using h)⟩

end Quotation

namespace Lexeme

open Numeral (countWhile)

variable {cs : List Char}

/-- Where a literal opens the next lexeme is one, closed or not. -/
theorem next?_of_opens (h : Quotation.opens cs = true) :
    (∃ n, next? cs = some (.string, n)) ∨ next? cs = some (.unterminated, 1) := by
  obtain ⟨c, ds, rfl, hc⟩ := Quotation.exists_cons_of_opens h
  simp only [Quotation.isQuote, Quotation.isMark, Bool.or_eq_true, beq_iff_eq] at hc
  have hgap : gapLength (c :: ds) = 0 := by
    rcases hc with (rfl | rfl) | ((rfl | rfl) | rfl) | rfl <;> simp [gapLength, countWhile, isSpace]
  have hend : lineEndLength (c :: ds) = 0 := by
    rcases hc with (rfl | rfl) | ((rfl | rfl) | rfl) | rfl <;> simp [lineEndLength]
  cases hs : Quotation.length? (c :: ds) with
  | some n => exact .inl ⟨n, by simp [next?, hgap, hend, hs]⟩
  | none => exact .inr (by simp [next?, hgap, hend, hs, h])

theorem newline_mem_of_next? {n : Nat} (h : next? cs = some (.lineEnd, n)) : '\n' ∈ cs := by
  cases cs with
  | nil => simp [next?] at h
  | cons c ds =>
    have hpos : 0 < lineEndLength (c :: ds) := by
      by_contra hend
      simp only [next?, hend] at h
      grind
    unfold lineEndLength at hpos
    split at hpos <;> simp_all

end Lexeme

namespace Scanner

variable {s s' : Scanner} {ts : List Token}

/-- The scanner of a source that goes on with `x`. -/
def extend (s : Scanner) (x : List Char) : Scanner := { s with rest := s.rest ++ x }

/-- Whether the last lexeme of the source is a line end outside brackets. -/
def endsLine (s : Scanner) : Bool :=
  match _h : s.step with
  | .error _ => false
  | .ok (_, s') =>
    s.brackets.isEmpty && Lexeme.next? s.rest == some (.lineEnd, s.rest.length) || s'.endsLine
  termination_by s.rest.length
  decreasing_by exact length_step _h

/-- What holds where the last lexeme is such a line end, and before a step whenever it holds after
it, holds of all scanners that come to one. -/
theorem endsLine_induction {P : Scanner → Prop}
    (last : ∀ {s ts s'}, s.step = .ok (ts, s') → s.brackets.isEmpty = true →
      Lexeme.next? s.rest = some (.lineEnd, s.rest.length) → P s)
    (more : ∀ {s ts s'}, s.step = .ok (ts, s') → s'.endsLine = true → P s' → P s)
    (h : s.endsLine = true) : P s := by
  revert h
  fun_induction endsLine s with
  | case1 => simp
  | case2 s ts s' hstep ih =>
    intro h
    rw [Bool.or_eq_true, Bool.and_eq_true, beq_iff_eq] at h
    rcases h with ⟨hb, hn⟩ | h
    · exact last hstep hb hn
    · exact more hstep h (ih h)

theorem newline_mem_of_endsLine (h : s.endsLine = true) : '\n' ∈ s.rest := by
  refine endsLine_induction (fun _ _ hn => Lexeme.newline_mem_of_next? hn) ?_ h
  intro s ts s' hstep _ hmem
  obtain ⟨n, hn⟩ := rest_step hstep
  exact List.mem_of_mem_drop (hn ▸ hmem)

theorem openLine_extend (hr : '\n' ∈ s.rest) (h : s.openLine = .ok (ts, s')) (x : List Char) :
    (s.extend x).openLine = .ok (ts, s'.extend x) := by
  have hmem : '\n' ∈ s.rest.drop (indentation s.rest).length :=
    Numeral.mem_drop_countWhile hr (by decide)
  have hlt : (indentation (s.rest ++ [])).length < s.rest.length := by
    have hpos := List.length_pos_of_mem hmem
    rw [List.length_drop] at hpos
    rw [List.append_nil]
    omega
  have hrest := rest_openLine h
  rw [extend, extend, hrest]
  apply openLine_facing hlt
  rw [List.append_nil, facing_rest]
  exact h

theorem readLexeme_extend {x : List Char}
    (hn : Lexeme.next? (s.rest ++ x) = Lexeme.next? s.rest) (h : s.readLexeme = .ok (ts, s')) :
    (s.extend x).readLexeme = .ok (ts, s'.extend x) := by
  obtain ⟨lexeme, n, hpass⟩ := readLexeme_passes h
  have hnext := hpass.next
  rw [extend, extend, hpass.skips.rest]
  apply readLexeme_facing (b := []) _ (hn.trans hnext) (Lexeme.next?_bounds hnext).2
  · rw [List.append_nil, facing_rest]
    exact h
  · rw [List.append_nil]
    exact hnext

/-- The next lexeme of a longer source is the same. -/
theorem step_extend {x : List Char} (hr : '\n' ∈ s.rest)
    (hn : Lexeme.next? (s.rest ++ x) = Lexeme.next? s.rest) (h : s.step = .ok (ts, s')) :
    (s.extend x).step = .ok (ts, s'.extend x) := by
  rcases step_ok.1 h with ⟨hc, layout, mid, us, ho, hread, rfl⟩ | ⟨hc, hread⟩
  · refine step_ok.2 (.inl ⟨hc, layout, mid.extend x, us, openLine_extend hr ho x, ?_, rfl⟩)
    exact readLexeme_extend (by rwa [rest_openLine ho]) hread
  · exact step_ok.2 (.inr ⟨hc, readLexeme_extend hn hread⟩)

/-- A line with a token is open until a newline token ends it. -/
theorem readLexeme_ends_line (h : s.readLexeme = .ok (ts, s')) (hl : s'.lineOpen = false) :
    ts = [] ∧ s.lineOpen = false ∨ ∃ us t, ts = us ++ [t] ∧ t.kind = .newline := by
  obtain ⟨lexeme, n, hpass⟩ := readLexeme_passes h
  rcases hpass.emits with ⟨rfl, -, hopen⟩ | ⟨-, t, rfl, -, -, hkind, hopen⟩
  · exact .inl ⟨rfl, hopen ▸ hl⟩
  · rw [hopen] at hl
    exact .inr ⟨[], t, rfl, hkind.resolve_right (by simp [hl])⟩

theorem openLine_opens_line (h : s.openLine = .ok (ts, s')) (hl : s'.lineOpen = false) :
    ts = [] ∧ s.lineOpen = false := by
  rcases openLine_cases h with ⟨-, rfl, rfl⟩ | ⟨-, ⟨blocks, rfl⟩, -⟩
  · exact ⟨rfl, hl⟩
  · simpa [and_comm] using hl

/-- A line that is no longer open has ended with a newline token. -/
theorem step_ends_line (h : s.step = .ok (ts, s')) (hl : s'.lineOpen = false) :
    ts = [] ∧ s.lineOpen = false ∨ ∃ us t, ts = us ++ [t] ∧ t.kind = .newline := by
  rcases step_ok.1 h with ⟨-, layout, mid, us, ho, hr, rfl⟩ | ⟨-, hr⟩
  · rcases readLexeme_ends_line hr hl with ⟨rfl, hmid⟩ | ⟨us, t, rfl, hk⟩
    · left
      simpa using openLine_opens_line ho hmid
    · exact .inr ⟨layout ++ us, t, by simp, hk⟩
  · exact readLexeme_ends_line hr hl

/-- A line that begins with a literal is not blank. -/
theorem openLine_of_opens (ho : Quotation.opens s.rest = true) (h : s.openLine = .ok (ts, s')) :
    s'.atLineStart = false := by
  obtain ⟨c, ds, hrest, hc⟩ := Quotation.exists_cons_of_opens ho
  simp only [Quotation.isQuote, Quotation.isMark, Bool.or_eq_true, beq_iff_eq] at hc
  have hindent : indentation s.rest = [] := by
    rw [hrest]
    rcases hc with (rfl | rfl) | ((rfl | rfl) | rfl) | rfl <;> simp [indentation]
  have hblank : isBlankLine s.rest = false := by
    rw [hrest]
    rcases hc with (rfl | rfl) | ((rfl | rfl) | rfl) | rfl <;> simp [isBlankLine]
  rcases openLine_cases h with ⟨hb, -⟩ | ⟨-, ⟨blocks, rfl⟩, -⟩
  · simp [hindent, hblank] at hb
  · rfl

theorem step_of_lineEnd {n : Nat} (hn : Lexeme.next? s.rest = some (.lineEnd, n))
    (hb : s.brackets.isEmpty = true) (h : s.step = .ok (ts, s')) :
    s'.rest = s.rest.drop n ∧ s'.lineOpen = false := by
  have key {s : Scanner} (hn : Lexeme.next? s.rest = some (.lineEnd, n))
      (hb : s.brackets.isEmpty = true) {us : List Token} (h : s.readLexeme = .ok (us, s')) :
      s'.rest = s.rest.drop n ∧ s'.lineOpen = false := by
    simp only [readLexeme, hn, endLine, hb, if_true] at h
    cases h
    exact ⟨rfl, rfl⟩
  rcases step_ok.1 h with ⟨-, layout, mid, us, ho, hr, rfl⟩ | ⟨-, hr⟩
  · have hrest := rest_openLine ho
    rw [← hrest] at hn ⊢
    exact key hn (by rw [brackets_openLine ho, hb]) hr
  · exact key hn hb hr

/-- A string is the last token of its step, and no line starts behind it. -/
theorem step_of_string {n : Nat} (hn : Lexeme.next? s.rest = some (.string, n))
    (h : s.step = .ok (ts, s')) :
    (∃ us t, ts = us ++ [t] ∧ t.kind = .string) ∧ s'.rest = s.rest.drop n ∧
      (s'.atLineStart && s'.brackets.isEmpty) = false := by
  rcases step_ok.1 h with ⟨-, layout, mid, us, ho, hr, rfl⟩ | ⟨hline, hr⟩
  · have hrest := rest_openLine ho
    have hmid := openLine_of_opens (Quotation.opens_of_length? (Lexeme.reads_of_next? hn)) ho
    rw [← hrest] at hn ⊢
    simp only [readLexeme, hn] at hr
    cases hr
    exact ⟨⟨layout, _, rfl, rfl⟩, rfl, by simp [skip, hmid]⟩
  · simp only [readLexeme, hn] at hr
    cases hr
    exact ⟨⟨[], _, rfl, rfl⟩, rfl, hline⟩

/-- A quote within a line begins a string. -/
theorem step_of_opens (ho : Quotation.opens s.rest = true)
    (hline : (s.atLineStart && s.brackets.isEmpty) = false) (h : s.step = .ok (ts, s')) :
    ∃ t, ts = [t] ∧ t.kind = .string := by
  rcases step_ok.1 h with ⟨hc, -⟩ | ⟨-, hr⟩
  · simp [hline] at hc
  · rcases Lexeme.next?_of_opens ho with ⟨n, hn⟩ | hn
    · simp only [readLexeme, hn] at hr
      cases hr
      exact ⟨_, rfl, rfl⟩
    · simp [readLexeme, hn] at hr

theorem closing_finish (hl : s.lineOpen = false) : Closing s.finish := by
  intro t ht
  simp only [finish, hl, Bool.false_eq_true, if_false, List.nil_append, List.mem_append,
    List.mem_singleton] at ht
  rcases ht with ht | rfl
  · exact .inl (by rw [List.eq_of_mem_replicate ht]; rfl)
  · exact .inr rfl

/-- Of the tokens `ts` those in `us` are read before the source ends, and its last line ends with
the last of them. -/
structure Completes (s : Scanner) (ts us : List Token) : Prop where
  closes : ∃ closers, ts = us ++ closers ∧ closers ≠ [] ∧ Closing closers
  newline : us = [] ∧ s.lineOpen = false ∨ ∃ vs t, us = vs ++ [t] ∧ t.kind = .newline

theorem Completes.nil (hl : s.lineOpen = false) : s.Completes s.finish [] :=
  ⟨⟨s.finish, rfl, by simp [finish], closing_finish hl⟩, .inl ⟨rfl, hl⟩⟩

theorem Completes.of_step {us vs : List Token} (hstep : s.step = .ok (us, s'))
    (h : s'.Completes ts vs) : s.Completes (us ++ ts) (us ++ vs) := by
  obtain ⟨⟨closers, rfl, hne, hclosing⟩, hline⟩ := h
  refine ⟨⟨closers, by simp, hne, hclosing⟩, ?_⟩
  rcases hline with ⟨rfl, hopen⟩ | ⟨ws, t, rfl, hk⟩
  · simpa using step_ends_line hstep hopen
  · exact .inr ⟨us ++ ws, t, by simp, hk⟩

/-- A quote within a line begins a string, so the tokens that are completed begin with one. -/
theorem Completes.string_of_opens {us : List Token} (hc : s.Completes ts us) (hrun : s.run = .ok ts)
    (ho : Quotation.opens s.rest = true)
    (hline : (s.atLineStart && s.brackets.isEmpty) = false) :
    ∃ t vs, us = t :: vs ∧ t.kind = .string := by
  have hne : s.rest ≠ [] := by
    obtain ⟨c, ds, hrest, -⟩ := Quotation.exists_cons_of_opens ho
    simp [hrest]
  obtain ⟨first, s', more, hstep, -, rfl⟩ := (run_ok hne).1 hrun
  obtain ⟨t, rfl, hk⟩ := step_of_opens ho hline hstep
  obtain ⟨⟨closers, hts, -, hclosing⟩, -⟩ := hc
  cases us with
  | nil =>
    rw [List.nil_append, List.singleton_append] at hts
    rcases hclosing t (by simp [← hts]) with h | h <;> simp [hk] at h
  | cons u us =>
    obtain ⟨rfl, -⟩ := List.cons.inj hts
    exact ⟨t, us, rfl, hk⟩

/-- The tokens that a scanner reads from here on when the source goes on with `x` are `us` and
tokens behind the end of the source. -/
def Foretells (s : Scanner) (source : List Char) (us : List Token) : Prop :=
  ∀ x ws, byteLength (source ++ x) < 2 ^ 32 → (s.extend x).run = .ok ws →
    ∃ more, ws = us ++ more ∧ ∀ t ∈ more, byteLength source ≤ t.span.start.offset

/-- Tokens of a step that what follows leaves as they are go before those of the steps after it. -/
theorem Foretells.of_step {source : List Char} {us vs : List Token} (hmem : '\n' ∈ s.rest)
    (hn : ∀ x, Lexeme.next? (s.rest ++ x) = Lexeme.next? s.rest) (hstep : s.step = .ok (us, s'))
    (h : s'.Foretells source vs) : s.Foretells source (us ++ vs) := by
  intro x ws hshort hrun
  have hne : (s.extend x).rest ≠ [] := List.append_ne_nil_of_left_ne_nil (List.ne_nil_of_mem hmem) x
  obtain ⟨_, _, more, hstep', hmore, rfl⟩ := (run_ok hne).1 hrun
  rw [step_extend hmem (hn x) hstep] at hstep'
  cases hstep'
  obtain ⟨others, rfl, hothers⟩ := h x more hshort hmore
  exact ⟨others, by simp, hothers⟩

/-- What is read after the end of the source stands behind it. -/
theorem Foretells.nil {source : List Char} (hat : At source s) (hr : s.rest = []) :
    s.Foretells source [] := by
  intro x ws hshort hrun
  have hat' : At (source ++ x) (s.extend x) := by
    obtain ⟨-, read, hsource, ho⟩ := hat
    exact ⟨hshort, read, by simp [extend, hsource], ho⟩
  have htiles := (run_fills hat' hrun).1.tiles
  refine ⟨ws, rfl, fun t ht => ?_⟩
  rw [← hat.offset_eq hr]
  exact htiles.le_of_mem ht

/-- Up to the end of its source a scanner reads the same tokens whatever follows, unless it has
read two strings next to each other. -/
theorem run_extend {source : List Char} (hcut : s.endsLine = true) :
    ∀ ts, At source s → s.run = .ok ts →
      ∃ us, s.Completes ts us ∧ (Apart us → s.Foretells source us) := by
  refine endsLine_induction (P := fun s => ∀ ts, At source s → s.run = .ok ts →
    ∃ us, s.Completes ts us ∧ (Apart us → s.Foretells source us)) ?_ ?_ hcut
  · intro s first s' hstep hb hn ts hat h
    have hmem := Lexeme.newline_mem_of_next? hn
    obtain ⟨hrest, hl⟩ := step_of_lineEnd hn hb hstep
    rw [List.drop_length] at hrest
    obtain ⟨_, _, more, hstep', hrun, rfl⟩ := (run_ok (List.ne_nil_of_mem hmem)).1 h
    rw [hstep] at hstep'
    cases hstep'
    rw [run_nil hrest] at hrun
    cases hrun
    refine ⟨first, by simpa using (Completes.nil hl).of_step hstep, fun _ => ?_⟩
    have hsame (x : List Char) : Lexeme.next? (s.rest ++ x) = Lexeme.next? s.rest := by
      refine (Lexeme.next?_append hmem x).resolve_right ?_
      rintro ⟨n, hstring, -⟩
      simp [hn] at hstring
    simpa using Foretells.of_step hmem hsame hstep (.nil (step_fills hat hstep).1 hrest)
  · intro s first s' hstep hcut ih ts hat h
    have hmem : '\n' ∈ s.rest := by
      obtain ⟨n, hn⟩ := rest_step hstep
      exact List.mem_of_mem_drop (hn ▸ newline_mem_of_endsLine hcut)
    obtain ⟨_, _, more, hstep', hrun, rfl⟩ := (run_ok (List.ne_nil_of_mem hmem)).1 h
    rw [hstep] at hstep'
    cases hstep'
    obtain ⟨us, hcomplete, hforetell⟩ := ih more (step_fills hat hstep).1 hrun
    refine ⟨first ++ us, hcomplete.of_step hstep, fun hapart => ?_⟩
    refine Foretells.of_step hmem (fun x => ?_) hstep (hforetell (List.isChain_append.1 hapart).2.1)
    refine (Lexeme.next?_append hmem x).resolve_right ?_
    -- a quote behind an empty string would begin another string
    rintro ⟨n, hstring, ho⟩
    obtain ⟨⟨vs, t, rfl, ht⟩, hrest, hline⟩ := step_of_string hstring hstep
    rw [← hrest] at ho
    obtain ⟨u, us, rfl, hu⟩ := hcomplete.string_of_opens hrun ho hline
    exact (List.isChain_append.1 hapart).2.2 t (by simp) u (by simp) ⟨ht, hu⟩

end Scanner

/-- Whether a source ends with a line end outside brackets, if it is not empty. -/
def endsLine (source : List Char) (file : String) : Bool :=
  source.isEmpty || (Scanner.start source file).endsLine

/-- A source that ends with a line keeps its tokens when text is appended, but for those that
close its blocks and mark its end. -/
theorem tokens_append {source : List Char} {file : String} {ts : List Token}
    (hcut : endsLine source file = true) (hshort : byteLength source < 2 ^ 32)
    (h : tokens source file = .ok ts) : ∃ us, (Scanner.start source file).Completes ts us ∧
      (Apart us → ∀ x ws, byteLength (source ++ x) < 2 ^ 32 → tokens (source ++ x) file = .ok ws →
        ∃ more, ws = us ++ more ∧ ∀ t ∈ more, byteLength source ≤ t.span.start.offset) := by
  rw [endsLine, Bool.or_eq_true, List.isEmpty_iff] at hcut
  rcases hcut with rfl | hcut
  · rw [tokens, Scanner.run_nil rfl] at h
    cases h
    exact ⟨[], .nil rfl, fun _ => Scanner.Foretells.nil (.start hshort file) rfl⟩
  · exact Scanner.run_extend hcut ts (.start hshort file) h

/-- Neither a line end in brackets nor one behind a backslash ends a line. -/
example : endsLine "x = [\n".toList "BUILD" = false ∧
    endsLine "x = 1 \\\n".toList "BUILD" = false ∧
    endsLine "x = [\n]\n".toList "BUILD" = true := by decide +kernel

end BuildTyping
