import BuildTyping.Token.Quotation

/-!
# Complete literals

What a quoted literal is, said without reading it: a mark or none, quotes, a text that does not
close them, and the same quotes. The length that is read at the start of a text is that of such a
literal, and decoding gives what it stands for.
-/

namespace BuildTyping.Quotation

/-- A text between single quotes: no quote and no line end, and behind a backslash any character
but a line end. -/
inductive Inline (quote : Char) : List Char → Prop where
  | nil : Inline quote []
  | plain {c : Char} {cs : List Char} (hq : c ≠ quote) (hn : c ≠ '\n') (hb : c ≠ '\\')
      (rest : Inline quote cs) : Inline quote (c :: cs)
  | escaped {c : Char} {cs : List Char} (hn : c ≠ '\n') (rest : Inline quote cs) :
      Inline quote ('\\' :: c :: cs)

/-- A text in quotes, and what stands between them. Three quotes in a row close the literal that
they open where they first come again. -/
inductive Encloses : List Char → List Char → Prop where
  | line {quote : Char} {body : List Char} (hq : isQuote quote = true)
      (inline : Inline quote body) : Encloses ([quote] ++ body ++ [quote]) body
  | block {quote : Char} {body : List Char} (hq : isQuote quote = true)
      (first : ∀ before after,
        body ++ [quote, quote, quote] = before ++ [quote, quote, quote] ++ after → after = []) :
      Encloses ([quote, quote, quote] ++ body ++ [quote, quote, quote]) body

/-- A complete literal and the text that it stands for. -/
def Literal (text value : List Char) : Prop :=
  ∃ mark quoted body, text = mark ++ quoted ∧ mark.length ≤ 1 ∧ (∀ c ∈ mark, isMark c = true) ∧
    Encloses quoted body ∧ value = if mark.any isRawMark then body else unescape body

variable {quote : Char} {cs : List Char} {n : Nat}

theorem lineLength?_inline (h : lineLength? quote cs = some n) :
    ∃ body, Inline quote body ∧ cs.take n = body ++ [quote] := by
  fun_induction lineLength? quote cs generalizing n with
  | case1 => simp at h
  | case2 cs =>
    cases h
    exact ⟨[], .nil, by simp⟩
  | case3 => simp at h
  | case4 => simp at h
  | case5 => simp at h
  | case6 d ds hd hq hn ih =>
    obtain ⟨m, hm, rfl⟩ := Option.map_eq_some_iff.1 h
    obtain ⟨body, hbody, htake⟩ := ih hm
    exact ⟨_, .escaped hd hbody, by simp [htake]⟩
  | case7 c cs hq hn hb ih =>
    obtain ⟨m, hm, rfl⟩ := Option.map_eq_some_iff.1 h
    obtain ⟨body, hbody, htake⟩ := ih hm
    exact ⟨_, .plain hq hn hb hbody, by simp [htake]⟩

/-- The three quotes that are found are the first three in a row. -/
theorem blockLength?_first (h : blockLength? quote cs = some n) :
    ∃ body, cs.take n = body ++ [quote, quote, quote] ∧
      ∀ before after, body ++ [quote, quote, quote] = before ++ [quote, quote, quote] ++ after →
        after = [] := by
  fun_induction blockLength? quote cs generalizing n with
  | case1 => simp at h
  | case2 c cs hp =>
    cases h
    obtain ⟨rest, hrest⟩ := List.isPrefixOf_iff_prefix.1 hp
    refine ⟨[], by simp [← hrest], fun before after heq => ?_⟩
    have hlength := congrArg List.length heq
    simp only [List.length_append, List.length_cons, List.length_nil] at hlength
    exact List.eq_nil_of_length_eq_zero (by omega)
  | case3 c cs hp ih =>
    obtain ⟨m, hm, rfl⟩ := Option.map_eq_some_iff.1 h
    obtain ⟨body, htake, hfirst⟩ := ih hm
    refine ⟨c :: body, by simp [htake], fun before after heq => ?_⟩
    cases before with
    | nil =>
      -- the text would begin with three quotes
      refine absurd (List.isPrefixOf_iff_prefix.2 ?_) hp
      rw [List.cons_append, ← htake, ← List.take_succ_cons] at heq
      exact (heq ▸ List.prefix_append _ after).trans (List.take_prefix _ _)
    | cons b before =>
      exact hfirst before after (by simpa using (List.cons.inj heq).2)

theorem encloses_of_closedLength? (h : closedLength? cs = some n) :
    ∃ body, Encloses (cs.take n) body := by
  cases cs with
  | nil => simp [closedLength?] at h
  | cons quote cs =>
    simp only [closedLength?] at h
    split at h
    · rename_i hq
      split at h
      · rename_i m hm
        split at hm
        · rename_i hopen
          cases h
          obtain ⟨ds, rfl⟩ := List.isPrefixOf_iff_prefix.1 hopen
          obtain ⟨body, htake, hfirst⟩ := blockLength?_first hm
          refine ⟨body, ?_⟩
          have htext : (quote :: ([quote, quote] ++ ds)).take (3 + m)
              = [quote, quote, quote] ++ body ++ [quote, quote, quote] := by
            simp only [List.cons_append, List.nil_append, List.drop_succ_cons,
              List.drop_zero] at htake ⊢
            rw [Nat.add_comm, List.take_succ_cons, List.take_succ_cons, List.take_succ_cons, htake]
          rw [htext]
          exact .block hq hfirst
        · simp at hm
      · obtain ⟨m, hm, rfl⟩ := Option.map_eq_some_iff.1 h
        obtain ⟨body, hbody, htake⟩ := lineLength?_inline hm
        refine ⟨body, ?_⟩
        rw [List.take_succ_cons, htake]
        exact .line hq hbody
    · simp at h

theorem isMark_eq_false_of_isQuote (h : isQuote quote = true) : isMark quote = false := by
  simp only [isQuote, Bool.or_eq_true, beq_iff_eq] at h
  rcases h with rfl | rfl <;> rfl

/-- What is enclosed begins with a quote, and no mark is one. -/
theorem Encloses.markLength {quoted body : List Char} (h : Encloses quoted body) :
    markLength quoted = 0 := by
  cases h with
  | line hq | block hq => simp [Quotation.markLength, isMark_eq_false_of_isQuote hq]

theorem strip_append (opening body closing : List Char)
    (h : opening.length = closing.length) :
    strip opening.length (opening ++ body ++ closing) = body := by
  have hlength : (opening ++ body ++ closing).length - 2 * opening.length = body.length := by
    simp only [List.length_append]
    omega
  rw [strip, hlength, List.append_assoc, List.drop_left, List.take_left]

theorem markLength_marked (mark : List Char) {quoted body : List Char}
    (hlength : mark.length ≤ 1) (hmark : ∀ c ∈ mark, isMark c = true)
    (h : Encloses quoted body) : markLength (mark ++ quoted) = mark.length := by
  match mark with
  | [] => exact h.markLength
  | [c] => simp [markLength, hmark c (by simp)]
  | _ :: _ :: _ => simp at hlength

/-- Decoding takes off the mark and the quotes. -/
theorem decode_append (mark : List Char) {quoted body : List Char} (hlength : mark.length ≤ 1)
    (hmark : ∀ c ∈ mark, isMark c = true) (h : Encloses quoted body) :
    decode (mark ++ quoted) = if mark.any isRawMark then body else unescape body := by
  have hm := markLength_marked mark hlength hmark h
  simp only [decode, hm, List.drop_left, List.take_left]
  have reading {inner : List Char} (hinner : inner = body) :
      (if mark.any isRawMark then inner else unescape inner)
        = if mark.any isRawMark then body else unescape body := by
    rw [hinner]
  refine reading ?_
  cases h with
  | @block quote body hq =>
    have hstrip := strip_append [quote, quote, quote] body [quote, quote, quote] rfl
    simpa using hstrip
  | @line quote body hq inline =>
    have hstrip := strip_append [quote] body [quote] rfl
    -- only the first character of the body could be a second quote
    cases inline with
    | nil => simpa using hstrip
    | @plain c cs hc hn hb rest => cases cs <;> simpa [Ne.symm hc] using hstrip
    | @escaped c cs hn rest =>
      have hne : quote ≠ '\\' := by
        rintro rfl
        simp [isQuote] at hq
      simpa [hne] using hstrip

/-- The literal at the start of a text is complete, and stands for what it is decoded to. -/
theorem literal_of_length? (h : length? cs = some n) :
    Literal (cs.take n) (decode (cs.take n)) := by
  obtain ⟨m, hm, rfl⟩ := Option.map_eq_some_iff.1 h
  obtain ⟨body, hbody⟩ := encloses_of_closedLength? hm
  generalize hquoted : (cs.drop (markLength cs)).take m = quoted at hbody
  have hmark : (cs.take (markLength cs)).length ≤ 1 ∧
      (∀ c ∈ cs.take (markLength cs), isMark c = true) := by
    cases cs with
    | nil => simp
    | cons c cs =>
      simp only [markLength]
      split <;> simp_all
  have htext : cs.take (markLength cs + m) = cs.take (markLength cs) ++ quoted := by
    rw [← hquoted, List.take_add]
  generalize cs.take (markLength cs) = mark at hmark htext
  obtain ⟨hlength, hmark⟩ := hmark
  refine ⟨mark, quoted, body, htext, hlength, hmark, hbody, ?_⟩
  rw [htext, decode_append mark hlength hmark hbody]

end BuildTyping.Quotation
