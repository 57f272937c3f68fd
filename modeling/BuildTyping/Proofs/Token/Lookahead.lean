import BuildTyping.Proofs.Token.Spelling
import BuildTyping.Token.Lexeme

/-!
# How far a lexeme looks ahead

What follows a line end does not matter to the lexeme at the start of the line, except to three
opening quotes, which look for the three that close them.
-/

namespace BuildTyping

variable {r : List Char}

theorem isPrefixOf_append_of_le {p : List Char} (hle : p.length ≤ r.length) (x : List Char) :
    p.isPrefixOf (r ++ x) = p.isPrefixOf r := by
  rw [Bool.eq_iff_iff, List.isPrefixOf_iff_prefix, List.isPrefixOf_iff_prefix]
  exact ⟨fun h => List.prefix_of_prefix_length_le h (List.prefix_append r x) hle,
    fun h => h.trans (List.prefix_append r x)⟩

theorem isPrefixOf_append_of_mem {p : List Char} {c : Char} (hp : c ∉ p) (hr : c ∈ r)
    (x : List Char) : p.isPrefixOf (r ++ x) = p.isPrefixOf r := by
  induction p generalizing r with
  | nil => simp
  | cons d p ih =>
    obtain ⟨hd, hp⟩ := not_or.1 (mt List.mem_cons.2 hp)
    cases r with
    | nil => simp at hr
    | cons e r =>
      by_cases he : d = e
      · have hr' : c ∈ r := (List.mem_cons.1 hr).resolve_left (he ▸ hd)
        simp [he, ih hp hr']
      · have hf : (d == e) = false := by simpa using he
        simp [List.isPrefixOf, hf]

/-- What a test takes ends before a character that fails it. -/
theorem takeWhile_append_of_mem {test : Char → Bool} {c : Char} (hc : c ∈ r)
    (ht : test c = false) (x : List Char) : (r ++ x).takeWhile test = r.takeWhile test := by
  induction r with
  | nil => simp at hc
  | cons d r ih =>
    simp only [List.cons_append, List.takeWhile_cons]
    split
    · rename_i hd
      have hne : c ≠ d := by
        rintro rfl
        simp [ht] at hd
      rw [ih ((List.mem_cons.1 hc).resolve_left hne)]
    · rfl

/-- What a test takes that ends before a place ends there whatever stands behind the place. -/
theorem takeWhile_of_lt {test : Char → Bool} {w b x : List Char}
    (h : ((w ++ b).takeWhile test).length < w.length) :
    (w ++ x).takeWhile test = (w ++ b).takeWhile test := by
  induction w with
  | nil => simp at h
  | cons c w ih =>
    simp only [List.cons_append, List.takeWhile_cons, List.length_cons] at h ⊢
    split at h
    · rename_i hc
      rw [if_pos hc, if_pos hc, ih (by simpa using h)]
    · rename_i hc
      rw [if_neg hc, if_neg hc]

namespace Numeral

theorem countWhile_append {test : Char → Bool} {c : Char} (hc : c ∈ r) (ht : test c = false)
    (x : List Char) : countWhile test (r ++ x) = countWhile test r := by
  rw [countWhile, takeWhile_append_of_mem hc ht, countWhile]

/-- What is counted stops before a character that fails the test. -/
theorem mem_drop_countWhile {test : Char → Bool} {c : Char} (hc : c ∈ r) (ht : test c = false) :
    c ∈ r.drop (countWhile test r) := by
  induction r with
  | nil => simp at hc
  | cons d r ih =>
    simp only [countWhile, List.takeWhile_cons] at ih ⊢
    split
    · rename_i hd
      rcases List.mem_cons.1 hc with rfl | hr
      · simp [ht] at hd
      · simpa using ih hr
    · exact hc

theorem radixLength_append {mark digit : Char → Bool} (hm : mark '\n' = false)
    (hd : digit '\n' = false) (hr : '\n' ∈ r) (x : List Char) :
    radixLength mark digit (r ++ x) = radixLength mark digit r := by
  match r with
  | [] => simp at hr
  | [c] =>
    obtain rfl : '\n' = c := by simpa using hr
    rfl
  | c :: m :: cs =>
    by_cases hc : c = '0'
    · subst hc
      by_cases hmark : mark m = true
      · have hcs : '\n' ∈ cs := by
          have hne : '\n' ≠ m := by
            rintro rfl
            simp [hm] at hmark
          simpa [hne] using hr
        simp only [radixLength, List.cons_append, countWhile_append hcs hd]
      · simp [radixLength, hmark]
    · simp [radixLength, hc]

theorem signLength_append (hr : r ≠ []) (x : List Char) : signLength (r ++ x) = signLength r := by
  cases r with
  | nil => simp at hr
  | cons c r =>
    by_cases hp : c = '+'
    · simp [signLength, hp]
    · by_cases hm : c = '-'
      · simp [signLength, hm]
      · simp [signLength, hp, hm]

theorem mem_drop_signLength (hr : '\n' ∈ r) : '\n' ∈ r.drop (signLength r) := by
  unfold signLength
  split <;> simpa using hr

theorem signLength_le (cs : List Char) : signLength cs ≤ cs.length := by
  unfold signLength
  split <;> simp

theorem exponentLength_append (hr : '\n' ∈ r) (x : List Char) :
    exponentLength (r ++ x) = exponentLength r := by
  cases r with
  | nil => simp at hr
  | cons e r =>
    by_cases he : e = 'e' ∨ e = 'E'
    · have hr' : '\n' ∈ r := by
        rcases List.mem_cons.1 hr with rfl | hr
        · simp at he
        · exact hr
      simp only [exponentLength, List.cons_append, signLength_append (List.ne_nil_of_mem hr'),
        List.drop_append_of_le_length (signLength_le r),
        countWhile_append (mem_drop_signLength hr') (by decide : Char.isDigit '\n' = false)]
    · simp [exponentLength, he]

theorem decimalLength_append (hr : '\n' ∈ r) (x : List Char) :
    decimalLength (r ++ x) = decimalLength r := by
  have hdigit : Char.isDigit '\n' = false := by decide
  have hdrop := mem_drop_countWhile hr hdigit
  have hle := countWhile_le Char.isDigit r
  simp only [decimalLength, countWhile_append hr hdigit, List.drop_append_of_le_length hle]
  generalize r.drop (countWhile Char.isDigit r) = rest at hdrop
  cases rest with
  | nil => simp at hdrop
  | cons c rest =>
    by_cases hc : c = '.'
    · subst hc
      have hrest : '\n' ∈ rest := by simpa using hdrop
      have hrest' := mem_drop_countWhile hrest hdigit
      simp only [List.cons_append, countWhile_append hrest hdigit,
        List.drop_append_of_le_length (countWhile_le Char.isDigit rest),
        exponentLength_append hrest']
    · have hexp := exponentLength_append hdrop x
      rw [List.cons_append] at hexp
      simp only [List.cons_append]
      split
      · rename_i heq
        exact absurd (List.cons.inj heq).1 hc
      · rw [hexp]
        symm
        split
        · rename_i heq
          exact absurd (List.cons.inj heq).1 hc
        · rfl

theorem length_append (hr : '\n' ∈ r) (x : List Char) : length (r ++ x) = length r := by
  simp only [length, decimalLength_append hr,
    radixLength_append (by decide : isHexMark '\n' = false)
      (by decide : isHexDigit '\n' = false) hr,
    radixLength_append (by decide : isOctalMark '\n' = false)
      (by decide : isOctalDigit '\n' = false) hr]

end Numeral

namespace Quotation

theorem markLength_append (hr : r ≠ []) (x : List Char) : markLength (r ++ x) = markLength r := by
  cases r with
  | nil => simp at hr
  | cons c r => rfl

theorem markLength_le (cs : List Char) : markLength cs ≤ cs.length := by
  unfold markLength
  split
  · split <;> simp
  · simp

theorem mem_drop_markLength (hr : '\n' ∈ r) : '\n' ∈ r.drop (markLength r) := by
  cases r with
  | nil => simp at hr
  | cons c r =>
    simp only [markLength]
    split
    · rename_i hc
      have hne : '\n' ≠ c := by
        rintro rfl
        simp [isMark] at hc
      simpa [hne] using hr
    · exact hr

/-- A literal on one line ends before the end of the line. -/
theorem lineLength?_append {quote : Char} (hr : '\n' ∈ r) (x : List Char) :
    lineLength? quote (r ++ x) = lineLength? quote r := by
  fun_induction lineLength? quote r with
  | case1 => simp at hr
  | case2 cs => simp [lineLength?.eq_def]
  | case3 cs hne => simp [lineLength?.eq_def, hne]
  | case4 => simp at hr
  | case5 ds hne hn => simp [lineLength?.eq_def, hne]
  | case6 d ds hd hne hn ih =>
    have hds : '\n' ∈ ds := by simpa [eq_comm, hd] using hr
    rw [List.cons_append, List.cons_append, lineLength?.eq_def]
    simp [hne, hd, ih hds]
  | case7 c cs hne hn hb ih =>
    have hcs : '\n' ∈ cs := by simpa [eq_comm, hn] using hr
    rw [List.cons_append, lineLength?.eq_def]
    simp [hne, hn, hb, ih hcs]

theorem three_le_of_blockLength? {quote : Char} {n : Nat} (h : blockLength? quote r = some n) :
    3 ≤ n := by
  induction r generalizing n with
  | nil => simp [blockLength?] at h
  | cons c r ih =>
    rw [blockLength?] at h
    split at h
    · cases h
      exact Nat.le_refl 3
    · obtain ⟨m, hm, rfl⟩ := Option.map_eq_some_iff.1 h
      exact Nat.le_succ_of_le (ih hm)

/-- Three quotes that close a literal are found whatever follows them. -/
theorem blockLength?_append {quote : Char} {n : Nat} (h : blockLength? quote r = some n)
    (x : List Char) : blockLength? quote (r ++ x) = some n := by
  induction r generalizing n with
  | nil => simp [blockLength?] at h
  | cons c r ih =>
    have hle : [quote, quote, quote].length ≤ (c :: r).length :=
      Nat.le_trans (three_le_of_blockLength? h) (blockLength?_bounds h).2
    have hp := isPrefixOf_append_of_le hle x
    rw [List.cons_append] at hp ⊢
    rw [blockLength?] at h ⊢
    rw [hp]
    split at h
    · rename_i hp
      rwa [if_pos hp]
    · rename_i hp
      obtain ⟨m, hm, rfl⟩ := Option.map_eq_some_iff.1 h
      rw [if_neg hp, ih hm]
      rfl

theorem opens_cons {quote : Char} (hq : isQuote quote = true) (cs : List Char) :
    opens (quote :: cs) = true := by
  have hm : isMark quote = false := by
    simp only [isQuote, Bool.or_eq_true, beq_iff_eq] at hq
    rcases hq with rfl | rfl <;> rfl
  simp [opens, markLength, hm, hq]

/-- Only the search for three closing quotes goes on into what follows. Where it found none, the
literal is empty and the third opening quote is next. -/
theorem closedLength?_append (hr : '\n' ∈ r) (x : List Char) :
    closedLength? (r ++ x) = closedLength? r ∨
      closedLength? r = some 2 ∧ opens (r.drop 2) = true := by
  cases r with
  | nil => simp at hr
  | cons quote cs =>
    by_cases hq : isQuote quote = true
    · have hne : '\n' ≠ quote := by
        rintro rfl
        simp [isQuote] at hq
      have hcs : '\n' ∈ cs := by simpa [hne] using hr
      have hp : [quote, quote].isPrefixOf (cs ++ x) = [quote, quote].isPrefixOf cs :=
        isPrefixOf_append_of_mem (by simp [hne]) hcs x
      have hline : lineLength? quote (cs ++ x) = lineLength? quote cs := lineLength?_append hcs x
      by_cases hopen : [quote, quote].isPrefixOf cs = true
      · obtain ⟨ds, rfl⟩ := List.isPrefixOf_iff_prefix.1 hopen
        cases hb : blockLength? quote ds with
        | some n =>
          left
          have hb' := blockLength?_append hb x
          simp [closedLength?, hq, hb, hb']
        | none =>
          right
          exact ⟨by simp [closedLength?, hq, hb, lineLength?], opens_cons hq ds⟩
      · left
        simp [closedLength?, hq, hp, hopen, hline]
    · left
      simp [closedLength?, hq]

theorem length?_append (hr : '\n' ∈ r) (x : List Char) :
    length? (r ++ x) = length? r ∨
      ∃ n, length? r = some n ∧ opens (r.drop n) = true := by
  have hm := markLength_append (List.ne_nil_of_mem hr) x
  have hd : (r ++ x).drop (markLength r) = r.drop (markLength r) ++ x :=
    List.drop_append_of_le_length (markLength_le r)
  rcases closedLength?_append (mem_drop_markLength hr) x with h | ⟨h, ho⟩
  · left
    rw [length?, hm, hd, h, length?]
  · right
    refine ⟨markLength r + 2, by rw [length?, h, Option.map_some], ?_⟩
    rwa [List.drop_drop] at ho

theorem opens_append (hr : '\n' ∈ r) (x : List Char) : opens (r ++ x) = opens r := by
  have hm := markLength_append (List.ne_nil_of_mem hr) x
  have hd : (r ++ x).drop (markLength r) = r.drop (markLength r) ++ x :=
    List.drop_append_of_le_length (markLength_le r)
  have hmem := mem_drop_markLength hr
  rw [opens, opens, hm, hd]
  generalize r.drop (markLength r) = cs at hmem
  cases cs with
  | nil => simp at hmem
  | cons c cs => rfl

end Quotation

namespace Lexeme

open Numeral (countWhile countWhile_append)

theorem gapLength_append (hr : '\n' ∈ r) (x : List Char) : gapLength (r ++ x) = gapLength r := by
  have hspace := countWhile_append hr (by decide : isSpace '\n' = false) x
  fun_cases gapLength r with
  | case1 | case2 => simp [gapLength]
  | case3 cs =>
    have hcs : '\n' ∈ cs := by simpa using hr
    have hcomment : countWhile (· != '\n') (cs ++ x) = countWhile (· != '\n') cs :=
      countWhile_append hcs (by simp) x
    simp [gapLength, hcomment]
  | case4 h1 h2 h3 =>
    rw [← hspace]
    unfold gapLength
    split
    · rename_i y heq
      match r with
      | [] => simp at hr
      | [c] => simp_all
      | c :: d :: cs => simp_all
    · rename_i y heq
      match r with
      | [] => simp at hr
      | [c] => simp_all
      | [c, d] => simp_all
      | c :: d :: e :: cs => simp_all
    · rename_i y heq
      match r with
      | [] => simp at hr
      | c :: cs => simp_all
    · rfl

theorem lineEndLength_append (hr : '\n' ∈ r) (x : List Char) :
    lineEndLength (r ++ x) = lineEndLength r := by
  match r with
  | [] => simp at hr
  | [c] =>
    obtain rfl : '\n' = c := by simpa using hr
    rfl
  | c :: d :: cs =>
    unfold lineEndLength
    simp only [List.cons_append]
    split <;> split <;> simp_all

theorem wordLength_append (hr : '\n' ∈ r) (x : List Char) : wordLength (r ++ x) = wordLength r := by
  cases r with
  | nil => simp at hr
  | cons c cs =>
    simp only [List.cons_append, wordLength]
    split
    · rename_i hc
      have hcs : '\n' ∈ cs := by
        rcases List.mem_cons.1 hr with rfl | hcs
        · exact absurd hc (by decide +kernel)
        · exact hcs
      rw [countWhile_append hcs (by decide +kernel : isWordRest '\n' = false)]
    · rfl

theorem sign?_append (hr : '\n' ∈ r) (x : List Char) : sign? (r ++ x) = sign? r := by
  have htext (s : Sign) : '\n' ∉ s.text.toList := by cases s <;> decide
  simp only [sign?, isPrefixOf_append_of_mem (htext _) hr x]

/-- The lexeme before a line end does not depend on what follows the line end, unless it is an
empty string with another quote behind it. -/
theorem next?_append (hr : '\n' ∈ r) (x : List Char) :
    next? (r ++ x) = next? r ∨
      ∃ n, next? r = some (.string, n) ∧ Quotation.opens (r.drop n) = true := by
  cases r with
  | nil => simp at hr
  | cons c cs =>
    have hgap := gapLength_append hr x
    have hend := lineEndLength_append hr x
    have hopens := Quotation.opens_append hr x
    have hnumber := Numeral.length_append hr x
    have hword := wordLength_append hr x
    have hsign := sign?_append hr x
    have hstring := Quotation.length?_append hr x
    rw [List.cons_append] at *
    by_cases hg : 0 < gapLength (c :: cs)
    · left
      simp [next?, hgap, hg]
    · by_cases he : 0 < lineEndLength (c :: cs)
      · left
        simp only [next?, hgap, hend, hg, he, if_false, if_true]
      · rcases hstring with hs | ⟨n, hs, ho⟩
        · left
          simp only [next?, hgap, hend, hopens, hnumber, hword, hsign, hs]
        · right
          exact ⟨n, by simp [next?, hg, he, hs], ho⟩

end Lexeme

end BuildTyping
