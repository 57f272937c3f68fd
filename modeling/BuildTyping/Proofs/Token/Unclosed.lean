import BuildTyping.Proofs.Token.BlockLiteral

/-!
# Three quotes that are never closed

Where three quotes do not come again, the first two of them are an empty literal, and the third one
opens a literal on its line. So the fault, if there is one, lies behind the place where the three
quotes stand.
-/

namespace BuildTyping

namespace Quotation

variable {quote : Char} {mark cs : List Char}

theorem blockLength?_eq_none (h : ¬[quote, quote, quote] <:+: cs) :
    blockLength? quote cs = none := by
  fun_induction blockLength? quote cs with
  | case1 => rfl
  | case2 c cs hp => exact absurd (List.isPrefixOf_iff_prefix.1 hp).isInfix h
  | case3 c cs hp ih =>
    rw [ih fun hcs => h (List.infix_cons hcs)]
    rfl

/-- Three quotes that do not come again begin with an empty literal. -/
theorem closedLength?_unclosed (hq : isQuote quote = true)
    (h : ¬[quote, quote, quote] <:+: cs) :
    closedLength? (quote :: quote :: quote :: cs) = some 2 := by
  simp [closedLength?, hq, blockLength?_eq_none h, lineLength?]

theorem byteLength_mark (hmark : ∀ c ∈ mark, isMark c = true) : byteLength mark = mark.length := by
  refine byteLength_eq_length_iff.2 fun c hc => ?_
  have hm := hmark c hc
  simp only [isMark, Bool.or_eq_true, beq_iff_eq] at hm
  rcases hm with ((rfl | rfl) | rfl) | rfl <;> rfl

/-- Between single quotes an empty text stands for nothing. -/
theorem decode_empty (hlength : mark.length ≤ 1) (hmark : ∀ c ∈ mark, isMark c = true)
    (hq : isQuote quote = true) : decode (mark ++ [quote, quote]) = [] := by
  have hempty : Encloses [quote, quote] [] := .line hq .nil
  rw [decode_append mark hlength hmark hempty]
  split <;> rfl

end Quotation

namespace Scanner

variable {s : Scanner} {text rest : List Char}

/-- A literal ahead is read by one step, at the start of a line behind the blocks that end there. -/
theorem step_literal {source : List Char} (hat : At source s) (hs : s.rest = text ++ rest)
    (h : Quotation.length? (text ++ rest) = some text.length) :
    ∃ layout t m, s.step = .ok (layout ++ [t], m) ∧
      t.placed = (.string, String.ofList (Quotation.decode text), s.offset,
        s.offset + byteLength text) ∧
      (∀ t ∈ layout, t.kind = .dedent) ∧
      ((s.atLineStart && s.brackets.isEmpty) = false → layout = []) ∧
      m.rest = rest ∧ m.offset = s.offset + byteLength text ∧
      (m.atLineStart && m.brackets.isEmpty) = false := by
  have hplaced := placed_spanFrom (hat.behind hs s.brackets).offset_lt s .string
    (String.ofList (Quotation.decode text))
  cases hc : s.atLineStart && s.brackets.isEmpty with
  | false =>
    exact ⟨[], _, _, step_ok.2 (.inr ⟨hc, readLexeme_literal hs h⟩), hplaced, by simp,
      fun _ => rfl, rfl, rfl, hc⟩
  | true =>
    obtain ⟨c, cs, htext, hbreak⟩ := Lexeme.exists_cons_of_length? h
    obtain ⟨layout, blocks, ho, hkind⟩ := openLine_flush (hs.trans htext) hbreak
    exact ⟨layout, _, _, step_ok.2 (.inl ⟨hc, layout, _, _, ho, readLexeme_literal hs h, rfl⟩),
      hplaced, hkind, by simp, rfl, rfl, rfl⟩

/-- The first two of three quotes that do not come again are read as an empty literal. -/
theorem reaches_empty {source mark : List Char} {quote : Char} (hat : At source s)
    (hlength : mark.length ≤ 1) (hmark : ∀ c ∈ mark, Quotation.isMark c = true)
    (hq : Quotation.isQuote quote = true) (hopen : ¬[quote, quote, quote] <:+: rest)
    (hs : s.rest = mark ++ [quote, quote, quote] ++ rest) :
    ∃ layout t m, (∀ t ∈ layout, t.kind = .dedent) ∧
      t.placed = (.string, "", s.offset, s.offset + mark.length + 2) ∧
      s.Reaches (layout ++ [t]) m ∧
      m.rest = quote :: rest ∧ m.offset = s.offset + mark.length + 2 ∧
      (m.atLineStart && m.brackets.isEmpty) = false := by
  have hsplit : mark ++ [quote, quote, quote] ++ rest =
      (mark ++ [quote, quote]) ++ quote :: rest := by simp
  have hread : Quotation.length? ((mark ++ [quote, quote]) ++ quote :: rest) =
      some (mark ++ [quote, quote]).length := by
    have hmarked := Quotation.length?_marked hlength hmark hq (quote :: quote :: rest)
    rw [Quotation.closedLength?_unclosed hq hopen] at hmarked
    simpa using hmarked
  have hsize : byteLength (mark ++ [quote, quote]) = mark.length + 2 := by
    simp [Quotation.byteLength_mark hmark, Quotation.utf8Size_of_isQuote hq]
  obtain ⟨layout, t, m, hstep, ht, hkind, -, hrest, hoffset, hline⟩ :=
    step_literal hat (hs.trans hsplit) hread
  rw [Quotation.decode_empty hlength hmark hq, hsize, ← Nat.add_assoc] at ht
  rw [hsize, ← Nat.add_assoc] at hoffset
  exact ⟨layout, t, m, hkind, ht, .single hstep, hrest, hoffset, hline⟩

/-- A quote alone begins the literal that is closed on its line. -/
theorem reaches_line {source body : List Char} {quote : Char} (hat : At source s)
    (hq : Quotation.isQuote quote = true) (inline : Quotation.Inline quote body)
    (hs : s.rest = quote :: (body ++ quote :: rest))
    (halone : (body ++ quote :: rest).head? ≠ some quote)
    (hline : (s.atLineStart && s.brackets.isEmpty) = false) :
    ∃ t m, t.placed = (.string, String.ofList (Quotation.unescape body), s.offset,
        s.offset + byteLength body + 2) ∧
      s.Reaches [t] m ∧ m.rest = rest ∧ m.offset = s.offset + byteLength body + 2 := by
  have hsplit : quote :: (body ++ quote :: rest) = ([quote] ++ body ++ [quote]) ++ rest := by simp
  have hread : Quotation.length? (([quote] ++ body ++ [quote]) ++ rest) =
      some ([quote] ++ body ++ [quote]).length := by
    have hmarked : Quotation.length? ([] ++ quote :: (body ++ quote :: rest)) = _ :=
      Quotation.length?_marked (by simp) (by simp) hq (body ++ quote :: rest)
    rw [List.nil_append, Quotation.closedLength?_alone hq halone,
      Quotation.lineLength?_of_inline (Quotation.ne_backslash_of_isQuote hq) inline] at hmarked
    rw [← hsplit, hmarked]
    simp
  have hvalue : Quotation.decode ([quote] ++ body ++ [quote]) = Quotation.unescape body :=
    Quotation.decode_append [] (by simp) (by simp) (.line hq inline)
  have hsize : byteLength ([quote] ++ body ++ [quote]) = byteLength body + 2 := by
    simp only [byteLength_append, byteLength_cons, byteLength_nil,
      Quotation.utf8Size_of_isQuote hq]
    omega
  obtain ⟨layout, t, m, hstep, ht, -, hnone, hrest, hoffset, -⟩ :=
    step_literal hat (hs.trans hsplit) hread
  rw [hnone hline] at hstep
  rw [hvalue, hsize, ← Nat.add_assoc] at ht
  rw [hsize, ← Nat.add_assoc] at hoffset
  exact ⟨t, m, ht, .single hstep, hrest, hoffset⟩

end Scanner

open Quotation

variable {quote : Char} {before mark rest source : List Char} {file : String}
  {read : List Token} {s : Scanner}

/-- Three quotes that do not come again. The first two are an empty literal. If the third one opens
a literal that is closed on its line, this is read too, and otherwise it is the one that is not
closed. No fault lies before it. -/
theorem tokens_unclosed (hshort : byteLength source < 2 ^ 32)
    (hreach : Scanner.Reaches (.start source file) read s) (hs : s.offset = byteLength before)
    (hsource : source = before ++ (mark ++ [quote, quote, quote] ++ rest))
    (hlength : mark.length ≤ 1) (hmark : ∀ c ∈ mark, isMark c = true) (hq : isQuote quote = true)
    (hopen : ¬[quote, quote, quote] <:+: quote :: quote :: rest) :
    let third := byteLength before + mark.length + 2
    (∀ fault, tokens source file = .error fault → third ≤ fault.offset) ∧
    ((∃ p, tokens source file = .error ⟨.unterminatedString, p⟩ ∧ p.offset = third) ↔
      ¬∃ body behind, Inline quote body ∧ rest = body ++ quote :: behind) ∧
    ∀ body behind, Inline quote body → rest = body ++ quote :: behind →
      ∃ layout empty line m, (∀ t ∈ layout, t.kind = .dedent) ∧ m.rest = behind ∧
        Scanner.Reaches (.start source file) (read ++ layout ++ [empty, line]) m ∧
        empty.placed = (.string, "", byteLength before, third) ∧
        line.placed = (.string, String.ofList (unescape body), third,
          third + byteLength body + 2) := by
  intro third
  have hstart : Scanner.At source (.start source file) := .start hshort file
  have hrest : s.rest = mark ++ [quote, quote, quote] ++ rest :=
    (hreach.stands hstart).rest_eq hsource hs
  have hagain : ¬[quote, quote, quote] <:+: rest := fun h =>
    hopen (List.infix_cons (List.infix_cons h))
  have halone : rest.head? ≠ some quote := by
    intro hhead
    obtain ⟨more, rfl⟩ := List.head?_eq_some_iff.1 hhead
    exact hopen (List.prefix_append [quote, quote, quote] more).isInfix
  obtain ⟨layout, empty, m, hkind, hplaced, hempty, hbehind, hoffset, hline⟩ :=
    Scanner.reaches_empty (hreach.stands hstart) hlength hmark hq hagain hrest
  rw [hs] at hplaced hoffset
  have hway := hreach.trans hempty
  have hat := hway.stands hstart
  have hfault (fault : Fault) : tokens source file = .error fault ↔ m.run = .error fault :=
    hway.run_error_iff
  have hline_of {body behind : List Char} (inline : Inline quote body)
      (hclose : rest = body ++ quote :: behind) := Scanner.reaches_line hat hq inline
    (hclose ▸ hbehind) (hclose ▸ halone) hline
  rw [hoffset] at hline_of
  refine ⟨fun fault h => ?_, ⟨?_, fun hclose => ?_⟩, fun body behind inline hclose => ?_⟩
  · have hle := Scanner.offset_le_of_run hat ((hfault fault).1 h)
    rwa [hoffset] at hle
  · rintro ⟨p, h, hp⟩ ⟨body, behind, inline, hclose⟩
    -- behind a literal that is closed a fault would lie later
    obtain ⟨line, m', -, hliteral, -, hlater⟩ := hline_of inline hclose
    have herror := hliteral.run_error_iff.1 ((hfault _).1 h)
    have hle := Scanner.offset_le_of_run (hliteral.stands hat) herror
    rw [Fault.offset, hp, hlater] at hle
    simp only [third] at hle
    omega
  · refine ⟨_, (hfault _).2 (Scanner.run_unclosed hq hbehind halone hclose), ?_⟩
    rw [hat.offset_position, hoffset]
  · obtain ⟨line, m', hplaced', hliteral, hrest', -⟩ := hline_of inline hclose
    refine ⟨layout, empty, line, m', hkind, hrest', ?_, hplaced, hplaced'⟩
    simpa using hway.trans hliteral

/-- Behind a backslash a quote closes nothing, nor does it on the next line. The fault lies at the
third quote, behind the mark and two quotes. -/
theorem tokens_unclosed_escaped :
    let source := "x=b'''a\\'\n''".toList
    (∃ read s, Scanner.Reaches (.start source "BUILD") read s ∧ s.offset = 2 ∧
      ¬['\'', '\'', '\''] <:+: '\'' :: '\'' :: "a\\'\n''".toList) ∧
    ∃ p, tokens source "BUILD" = .error ⟨.unterminatedString, p⟩ ∧ p.offset = 5 := by
  intro source
  let span (start stop : Nat) : Span := ⟨.ofOffset start "BUILD", .ofOffset stop "BUILD"⟩
  have first : (Scanner.start source "BUILD").step = .ok ([⟨.identifier, "x", span 0 1⟩],
      ⟨"BUILD", 1, source.drop 1, [], [], false, true⟩) := by decide +kernel
  have second : (⟨"BUILD", 1, source.drop 1, [], [], false, true⟩ : Scanner).step =
      .ok ([⟨.sign .assign, "=", span 1 2⟩],
        ⟨"BUILD", 2, source.drop 2, [], [], false, true⟩) := by
    decide +kernel
  have hreach := Scanner.Reaches.step first (.single second)
  have hopen : ¬['\'', '\'', '\''] <:+: '\'' :: '\'' :: "a\\'\n''".toList := by decide
  have hnone : lineLength? '\'' "a\\'\n''".toList = none := by decide
  have hclose := (lineLength?_eq_none_iff (by decide)).1 hnone
  refine ⟨⟨_, _, hreach, rfl, hopen⟩, ?_⟩
  have hsource : source = "x=".toList ++ (['b'] ++ ['\'', '\'', '\''] ++ "a\\'\n''".toList) := rfl
  have hmark : ∀ c ∈ ['b'], isMark c = true := by simp [isMark]
  exact (tokens_unclosed (by decide +kernel) hreach rfl hsource (by decide) hmark rfl
    hopen).2.1.2 hclose

/-- The fault need not lie where three quotes open a literal, and there need not be one. -/
theorem unclosed_at_opening_not : ¬∀ (source before mark rest : List Char) (file : String)
    (quote : Char) (read : List Token) (s : Scanner), byteLength source < 2 ^ 32 →
    Scanner.Reaches (.start source file) read s →
    s.offset = byteLength before → source = before ++ (mark ++ [quote, quote, quote] ++ rest) →
    mark.length ≤ 1 → (∀ c ∈ mark, isMark c = true) → isQuote quote = true →
    ¬[quote, quote, quote] <:+: quote :: quote :: rest →
    ∃ p, tokens source file = .error ⟨.unterminatedString, p⟩ ∧ p.offset = byteLength before := by
  intro h
  have hread : (tokens "\"\"\"abc\"".toList "BUILD").isOk = true := by decide +kernel
  obtain ⟨p, herror, -⟩ := h "\"\"\"abc\"".toList [] [] "abc\"".toList "BUILD" '\x22' [] _
    (by decide +kernel) (.refl _) rfl rfl (by decide) (by simp) rfl (by decide)
  rw [herror] at hread
  cases hread

end BuildTyping
