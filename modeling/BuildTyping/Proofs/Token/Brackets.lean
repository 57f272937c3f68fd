import BuildTyping.Proofs.Token.Balanced
import BuildTyping.Proofs.Token.Refusal

/-!
# Brackets

The brackets of a source match, and lines go on within them. A source is refused at a closing
bracket exactly where it has been read up to one that does not match.
-/

namespace BuildTyping

theorem TokenKind.isLayout_of_isSolid {kind : TokenKind} (h : kind.isSolid = true) :
    kind.isLayout = false := by
  cases kind <;> first | rfl | simp [isSolid] at h

namespace Scanner

variable {source : List Char} {s s' m : Scanner} {ts us before after inner : List Token}
  {t o : Token} {b : Bracket}

/-- While a bracket is open the line is. -/
theorem lineOpen_of_step (hl : s.brackets ≠ [] → s.lineOpen = true) (h : s.step = .ok (ts, s'))
    (hb : s'.brackets ≠ []) : s'.lineOpen = true := by
  have hdepth := depth_step h
  have hpos := List.length_pos_iff.2 hb
  by_contra hopen
  rw [Bool.not_eq_true] at hopen
  rcases step_ends_line h hopen with ⟨rfl, hnone⟩ | ⟨us, t, rfl, ht⟩
  · have hnil : s.brackets = [] := by
      by_contra hne
      rw [hl hne] at hnone
      cases hnone
    rw [hnil, depthAfter_nil, List.length_nil] at hdepth
    omega
  · obtain ⟨hnil, hplain⟩ := plain_of_step h rfl (by rw [ht]; rfl)
    rw [depthAfter_of_layout hplain, hnil, List.length_nil] at hdepth
    omega

namespace Reaches

theorem lineOpen (h : Reaches s us m) (hl : s.brackets ≠ [] → s.lineOpen = true)
    (hb : m.brackets ≠ []) : m.lineOpen = true := by
  induction h with
  | refl => exact hl hb
  | step first _ ih => exact ih (lineOpen_of_step hl first) hb

/-- Behind an opening bracket there is no layout as long as it is not closed. -/
theorem isSolid_of_rises (h : Reaches s us m) (hus : us = before ++ o :: (inner ++ after))
    (ho : o.kind = .opening b) (hinner : Rises inner) : ∀ t ∈ inner, t.kind.isSolid = true := by
  intro t ht
  obtain ⟨first, last, rfl⟩ := List.append_of_mem ht
  have hsplit : us = (before ++ o :: first) ++ t :: (last ++ after) := by simp [hus]
  refine h.isSolid hsplit ?_
  rw [List.append_assoc, depthAfter_append, List.cons_append, depthAfter_cons, ho,
    TokenKind.depthAfter]
  have hrises : Rises ((first ++ [t]) ++ last) := by simpa using hinner
  exact Nat.lt_of_lt_of_le (Nat.succ_pos _) (hrises.le _)

end Reaches

end Scanner

/-- What the brackets of a source that stops at an offset ask of its tokens. -/
structure JoinsLines (stop : Nat) (ts : List Token) : Prop where
  /-- Each closing bracket matches the latest bracket that is still open. -/
  matched : Matched [] (ts.map (·.kind))
  /-- There is no layout between an opening bracket and the one that closes it, which matches. -/
  closed : ∀ before o inner c after b b', ts = before ++ o :: (inner ++ c :: after) →
    o.kind = .opening b → c.kind = .closing b' → Balanced inner →
      b' = b ∧ ∀ t ∈ inner, t.kind.isLayout = false
  /-- Behind a bracket that stays open there is no layout before the end of the source. -/
  unclosed : ∀ before o after b, ts = before ++ o :: after → o.kind = .opening b →
    StaysOpen after → ∃ inner ending n, after = inner ++ ending ∧
      ending.map Token.placed = (.newline, "", stop, stop) ::
        (List.replicate n (.dedent, "", stop, stop) ++ [(.endOfSource, "EOF", stop, stop)]) ∧
      ∀ t ∈ inner, t.kind.isLayout = false

theorem joinsLines_of_tokens {source : List Char} {file : String} {ts : List Token}
    (hshort : byteLength source < 2 ^ 32) (h : tokens source file = .ok ts) :
    JoinsLines (byteLength source) ts := by
  obtain ⟨us, m, hreach, hend, rfl⟩ := Scanner.exists_finish h
  have hbrackets : openBehind? [] us = some m.brackets := hreach.openBehind?
  refine ⟨?_, ?_, ?_⟩
  · have hall : openBehind? [] (us ++ m.finish) = some m.brackets := by
      rw [openBehind?_append, hbrackets, Option.bind_some,
        openBehind?_of_layout (Scanner.finish_plain m)]
    rw [Matched, ← openBehind?, hall]
    rfl
  · intro before o inner c after b b' hts ho hc hinner
    rw [← List.cons_append, ← List.append_assoc] at hts
    obtain ⟨rest, hus, -⟩ := Scanner.split_of_isSolid hts (by rw [hc]; rfl)
    rw [List.append_assoc, List.cons_append] at hus
    refine ⟨?_, fun t ht => TokenKind.isLayout_of_isSolid ?_⟩
    · rw [hus, openBehind?_append, Option.bind_eq_some_iff] at hbrackets
      obtain ⟨outer, -, hbrackets⟩ := hbrackets
      rw [openBehind?_cons, ho, TokenKind.openBehind?, Option.bind_some, openBehind?_append,
        Option.bind_eq_some_iff] at hbrackets
      obtain ⟨within, hwithin, hbrackets⟩ := hbrackets
      rw [hinner.openBehind? hwithin, openBehind?_cons, hc, TokenKind.openBehind?] at hbrackets
      split at hbrackets
      · rename_i hmatch
        exact (Option.some.inj hmatch).symm
      · simp at hbrackets
    · exact hreach.isSolid_of_rises hus ho hinner.rises t ht
  · intro before o after b hts ho hopen
    obtain ⟨inner, hus, rfl⟩ := Scanner.split_of_isSolid hts (by rw [ho]; rfl)
    have hinner : Rises inner := by
      apply StaysOpen.rises
      rintro part c rest rfl hc
      exact hopen part c (rest ++ m.finish) (by simp) hc
    have hdepth : m.brackets ≠ [] := by
      apply List.ne_nil_of_length_pos
      rw [hreach.depth, hus, depthAfter_append, depthAfter_cons, ho, TokenKind.depthAfter]
      have hrises : Rises (inner ++ []) := by simpa using hinner
      exact Nat.lt_of_lt_of_le (Nat.succ_pos _) (hrises.le _)
    have hline := hreach.lineOpen (fun hne => absurd rfl hne) hdepth
    have hat := hreach.stands (.start hshort file)
    have hzero : byteLength source + 0 < 2 ^ 32 := hshort
    refine ⟨inner, m.finish, m.blocks.length, rfl, ?_,
      fun t ht => TokenKind.isLayout_of_isSolid ?_⟩
    · rw [Scanner.finish, hline, hat.offset_eq hend]
      simp [Scanner.placed_layout hzero, Scanner.placed_endAt hshort]
    · have hsplit : us = before ++ o :: (inner ++ []) := by simp [hus]
      exact hreach.isSolid_of_rises hsplit ho hinner t ht

/-- The brackets of a source match and join its lines, and it is refused at a closing bracket
exactly where it has been read up to one that does not match the latest open one. -/
theorem tokens_brackets {source : List Char} (hshort : byteLength source < 2 ^ 32)
    (file : String) :
    (∀ ts, tokens source file = .ok ts → JoinsLines (byteLength source) ts) ∧
    ∀ offset text,
      (∃ p, tokens source file = .error ⟨.unbalancedBracket text, p⟩ ∧ p.offset = offset) ↔
      ∃ before b after, source = before ++ Bracket.closer b :: after ∧
        byteLength before = offset ∧ text = String.ofList [b.closer] ∧ ∃ ts s brackets,
          Scanner.Reaches (.start source file) ts s ∧ s.offset = offset ∧
          openBehind? [] ts = some brackets ∧ brackets.head? ≠ some b := by
  refine ⟨fun ts h => joinsLines_of_tokens hshort h, fun offset text => ⟨?_, ?_⟩⟩
  · rintro ⟨p, h, rfl⟩
    obtain ⟨s, hsteps, hat, hrefuses⟩ := tokens_error hshort h
    obtain ⟨ts, hreach⟩ := Scanner.Reaches.of_steps hsteps
    have hposition := hat.offset_position s
    obtain ⟨-, before, hsource, hbefore⟩ := hat
    cases hrefuses with
    | lexeme unread =>
      cases unread with
      | unbalanced next unopened =>
        rename_i b n
        have htake : s.rest.take n = [b.closer] := Lexeme.reads_of_next? next
        have hrest : s.rest = b.closer :: s.rest.drop n := by
          rw [← List.singleton_append, ← htake, List.take_append_drop]
        rw [hposition]
        refine ⟨before, b, s.rest.drop n, hrest ▸ hsource, hbefore.symm, by rw [htake], ?_⟩
        exact ⟨ts, s, s.brackets, hreach, rfl, hreach.openBehind?, unopened⟩
  · rintro ⟨before, b, after, hsource, hp, rfl, ts, s, brackets, hreach, hoffset, hopen, hhead⟩
    have hat := hreach.stands (.start hshort file)
    have hrest : s.rest = b.closer :: after := hat.rest_eq hsource (hoffset.trans hp.symm)
    have hbrackets : s.brackets = brackets := by
      have hs : openBehind? [] ts = some s.brackets := hreach.openBehind?
      rw [hopen] at hs
      exact (Option.some.inj hs).symm
    have hbreak : b.closer ∉ breaks := by cases b <;> decide
    have hnext : Lexeme.next? s.rest = some (.closing b, 1) := hrest ▸ Lexeme.next?_closing b after
    have hunread : Unread s.rest s.brackets _ := .unbalanced hnext (hbrackets ▸ hhead)
    have hrun := hreach.run_error_iff.2 (Scanner.run_of_unread hrest hbreak hunread)
    rw [hrest, List.take_succ_cons, List.take_zero] at hrun
    exact ⟨_, hrun, (hat.offset_position s).trans hoffset⟩

/-- The square brackets are closed on a later line, and the parenthesis stays open, as the one that
would close it stands in a comment. In the other source it comes before the square bracket ends. -/
theorem tokens_brackets_lines :
    (∃ ts, tokens "  x([ # )\n']'\n    ]\n".toList "BUILD" = .ok ts ∧ JoinsLines 20 ts ∧
      ts.map Token.placed = [(.indent, "", 0, 2), (.identifier, "x", 2, 3),
        (.opening .round, "(", 3, 4), (.opening .square, "[", 4, 5), (.string, "]", 10, 13),
        (.closing .square, "]", 18, 19), (.newline, "", 20, 20), (.dedent, "", 20, 20),
        (.endOfSource, "EOF", 20, 20)]) ∧
    tokens "(']', [\n1)]".toList "BUILD" =
      .error ⟨.unbalancedBracket ")", .ofOffset 9 "BUILD"⟩ ∧
    ∃ read s, Scanner.Reaches (.start "(']', [\n1)]".toList "BUILD") read s ∧ s.offset = 9 ∧
      ∃ brackets, openBehind? [] read = some brackets ∧ brackets.head? ≠ some .round := by
  have hjoined : (tokens "  x([ # )\n']'\n    ]\n".toList "BUILD").toOption.map
      (·.map Token.placed) = some [(.indent, "", 0, 2), (.identifier, "x", 2, 3),
        (.opening .round, "(", 3, 4), (.opening .square, "[", 4, 5), (.string, "]", 10, 13),
        (.closing .square, "]", 18, 19), (.newline, "", 20, 20), (.dedent, "", 20, 20),
        (.endOfSource, "EOF", 20, 20)] := by decide +kernel
  have hrefused : tokens "(']', [\n1)]".toList "BUILD" =
      .error ⟨.unbalancedBracket ")", .ofOffset 9 "BUILD"⟩ := by decide +kernel
  refine ⟨?_, hrefused, ?_⟩
  · cases hts : tokens "  x([ # )\n']'\n    ]\n".toList "BUILD" with
    | error fault =>
      rw [hts] at hjoined
      simp [Except.toOption] at hjoined
    | ok ts =>
      rw [hts] at hjoined
      exact ⟨ts, rfl, (tokens_brackets (by decide +kernel) "BUILD").1 ts hts,
        Option.some.inj hjoined⟩
  · obtain ⟨before, b, after, -, -, htext, read, s, brackets, hreach, hoffset, hopen, hhead⟩ :=
      ((tokens_brackets (by decide +kernel) "BUILD").2 9 ")").1 ⟨_, hrefused, by decide +kernel⟩
    obtain rfl : b = .round := by
      cases b with
      | round => rfl
      | square | curly => exact absurd htext (by decide)
    exact ⟨read, s, hreach, hoffset, brackets, hopen, hhead⟩

end BuildTyping
