import BuildTyping.Proofs.Token.Append

/-!
# Cuts between lexemes

A lexeme that ends before a place in the source is read there just the same when trivia is put in
at that place. For each form the length that is measured stays what it was, as none of the forms
takes a character that trivia begins with.
-/

namespace BuildTyping

/-- The characters that trivia begins with. -/
def breaks : List Char := [' ', '\t', '\x0c', '\n', '\r', '\\', '#']

/-- A test that no character of trivia passes fails for each of them. -/
theorem fails_of_mem_breaks {test : Char → Bool} {c : Char} (h : breaks.any test = false)
    (hc : c ∈ breaks) : test c = false := by
  rw [List.any_eq_false] at h
  simpa using h c hc

/-- The text is empty or begins as trivia does. -/
def Stops (x : List Char) : Prop := ∀ c ∈ x.head?, c ∈ breaks

namespace Stops

variable {x : List Char}

theorem cons {c : Char} (h : c ∈ breaks) (cs : List Char) : Stops (c :: cs) := by
  intro d hd
  obtain rfl : c = d := by simpa using hd
  exact h

theorem fails {test : Char → Bool} (h : Stops x) (ht : breaks.any test = false) :
    ∀ c ∈ x.head?, test c = false :=
  fun c hc => fails_of_mem_breaks ht (h c hc)

theorem append {gap : List Char} (h : Stops gap) (hne : gap ≠ []) (rest : List Char) :
    Stops (gap ++ rest) := by
  cases gap with
  | nil => exact absurd rfl hne
  | cons c gap =>
    apply Stops.cons
    exact h c rfl

end Stops

variable {w b x : List Char}

namespace Numeral

theorem countWhile_cons (test : Char → Bool) (c : Char) (cs : List Char) :
    countWhile test (c :: cs) = if test c = true then countWhile test cs + 1 else 0 := by
  rw [countWhile, List.takeWhile_cons]
  split <;> rfl

theorem countWhile_eq_zero {test : Char → Bool} (hx : ∀ c ∈ x.head?, test c = false) :
    countWhile test x = 0 := by
  cases x with
  | nil => rfl
  | cons c x =>
    have hc : test c = false := hx c rfl
    rw [countWhile_cons, hc]
    rfl

/-- What passes the test is counted up to a character that fails it. -/
theorem countWhile_of_forall {test : Char → Bool} {text : List Char}
    (htext : ∀ c ∈ text, test c = true) (hx : ∀ c ∈ x.head?, test c = false) :
    countWhile test (text ++ x) = text.length := by
  rw [countWhile, List.takeWhile_append_of_pos htext, List.length_append, ← countWhile,
    countWhile_eq_zero hx, Nat.add_zero]

theorem countWhile_cut {test : Char → Bool} (hx : ∀ c ∈ x.head?, test c = false)
    (h : countWhile test (w ++ b) ≤ w.length) :
    countWhile test (w ++ x) = countWhile test (w ++ b) := by
  induction w with
  | nil =>
    have hb : countWhile test b = 0 := Nat.le_zero.1 h
    rw [List.nil_append, List.nil_append, hb]
    exact countWhile_eq_zero hx
  | cons c w ih =>
    rw [List.cons_append, List.length_cons] at h
    rw [List.cons_append, List.cons_append, countWhile_cons, countWhile_cons]
    rw [countWhile_cons] at h
    by_cases hc : test c = true
    · rw [if_pos hc] at h ⊢
      rw [if_pos hc, ih (by omega)]
    · rw [if_neg hc, if_neg hc]

theorem radixLength_zero (mark digit : Char → Bool) (m : Char) (cs : List Char) :
    radixLength mark digit ('0' :: m :: cs) =
      if mark m && 0 < countWhile digit cs then 2 + countWhile digit cs else 0 := rfl

theorem radixLength_of_ne {mark digit : Char → Bool} {c : Char} (hc : c ≠ '0') (cs : List Char) :
    radixLength mark digit (c :: cs) = 0 := by
  simp [radixLength, hc]

/-- Without a mark behind its zero a number has no radix. -/
theorem radixLength_of_unmarked {mark digit : Char → Bool} (c : Char)
    (hx : ∀ m ∈ x.head?, mark m = false) : radixLength mark digit (c :: x) = 0 := by
  by_cases hc : c = '0'
  · subst hc
    cases x with
    | nil => rfl
    | cons m x =>
      have hm : mark m = false := hx m rfl
      rw [radixLength_zero, hm]
      rfl
  · exact radixLength_of_ne hc x

/-- A number with a radix has a mark and a digit at least. -/
theorem radixLength_eq_zero {mark digit : Char → Bool} {cs : List Char}
    (h : radixLength mark digit cs ≤ 1) : radixLength mark digit cs = 0 := by
  fun_cases radixLength mark digit cs with
  | case1 m cs hpos =>
    rw [radixLength_zero, if_pos hpos] at h
    omega
  | case2 => rfl
  | case3 => rfl

theorem radixLength_cut {mark digit : Char → Bool} (hx : Stops x)
    (hm : breaks.any mark = false) (hd : breaks.any digit = false)
    (h : radixLength mark digit (w ++ b) ≤ w.length) :
    radixLength mark digit (w ++ x) = radixLength mark digit (w ++ b) := by
  cases w with
  | nil =>
    rw [radixLength_eq_zero (Nat.le_succ_of_le h)]
    cases x with
    | nil => rfl
    | cons c x =>
      have hc : c ≠ '0' := by
        rintro rfl
        exact absurd (hx '0' rfl) (by decide)
      exact radixLength_of_ne hc x
  | cons c w =>
    cases w with
    | nil =>
      rw [radixLength_eq_zero h]
      exact radixLength_of_unmarked c (hx.fails hm)
    | cons m w =>
      by_cases hc : c = '0'
      · subst hc
        simp only [List.cons_append, List.length_cons, radixLength_zero] at h ⊢
        by_cases hmark : mark m = true
        · have hcut : countWhile digit (w ++ x) = countWhile digit (w ++ b) := by
            apply countWhile_cut (hx.fails hd)
            by_cases hpos : 0 < countWhile digit (w ++ b)
            · simp only [hmark, hpos, decide_true, Bool.and_self, if_true] at h
              omega
            · omega
          rw [hcut]
        · simp [hmark]
      · exact (radixLength_of_ne hc _).trans (radixLength_of_ne hc _).symm

theorem isDigit_breaks : breaks.any Char.isDigit = false := by decide

theorem signLength_of_stops (hx : Stops x) : signLength x = 0 := by
  cases x with
  | nil => rfl
  | cons c x =>
    have hc : c ∈ breaks := hx c rfl
    have hplus : c ≠ '+' := by
      rintro rfl
      exact absurd hc (by decide)
    have hminus : c ≠ '-' := by
      rintro rfl
      exact absurd hc (by decide)
    simp [signLength, hplus, hminus]

theorem exponentLength_cons (e : Char) (cs : List Char) :
    exponentLength (e :: cs) =
      if (e = 'e' ∨ e = 'E') ∧ 0 < countWhile Char.isDigit (cs.drop (signLength cs)) then
        1 + signLength cs + countWhile Char.isDigit (cs.drop (signLength cs))
      else 0 := rfl

/-- An exponent has a letter and a digit at least. -/
theorem exponentLength_eq_zero {cs : List Char} (h : exponentLength cs ≤ 1) :
    exponentLength cs = 0 := by
  cases cs with
  | nil => rfl
  | cons e cs =>
    rw [exponentLength_cons] at h ⊢
    split at h
    · omega
    · rename_i hneg
      exact if_neg hneg

theorem exponentLength_of_stops (hx : Stops x) : exponentLength x = 0 := by
  cases x with
  | nil => rfl
  | cons c x =>
    have hc : ¬(c = 'e' ∨ c = 'E') := by
      have hmem : c ∈ breaks := hx c rfl
      rintro (rfl | rfl)
      · exact absurd hmem (by decide)
      · exact absurd hmem (by decide)
    simp [exponentLength, hc]

theorem exponentLength_cut (hx : Stops x) (h : exponentLength (w ++ b) ≤ w.length) :
    exponentLength (w ++ x) = exponentLength (w ++ b) := by
  cases w with
  | nil =>
    rw [exponentLength_eq_zero (Nat.le_succ_of_le h)]
    exact exponentLength_of_stops hx
  | cons e v =>
    by_cases hv : v = []
    · have hdigits : countWhile Char.isDigit x = 0 :=
        countWhile_eq_zero (hx.fails isDigit_breaks)
      subst hv
      rw [exponentLength_eq_zero h, List.singleton_append, exponentLength_cons,
        signLength_of_stops hx, List.drop_zero, hdigits]
      exact if_neg fun hpos => Nat.lt_irrefl 0 hpos.2
    · have hdrop (y : List Char) :
          (v ++ y).drop (signLength v) = v.drop (signLength v) ++ y :=
        List.drop_append_of_le_length (signLength_le v)
      have hlength : (v.drop (signLength v)).length = v.length - signLength v := List.length_drop
      rw [List.cons_append, List.length_cons, exponentLength_cons, signLength_append hv,
        hdrop] at h
      rw [List.cons_append, List.cons_append, exponentLength_cons, exponentLength_cons,
        signLength_append hv, signLength_append hv, hdrop, hdrop]
      by_cases he : e = 'e' ∨ e = 'E'
      · have hcut : countWhile Char.isDigit (v.drop (signLength v) ++ x)
            = countWhile Char.isDigit (v.drop (signLength v) ++ b) := by
          apply countWhile_cut (hx.fails isDigit_breaks)
          by_cases hpos : 0 < countWhile Char.isDigit (v.drop (signLength v) ++ b)
          · rw [if_pos ⟨he, hpos⟩] at h
            omega
          · omega
        rw [hcut]
      · rw [if_neg fun hpos => he hpos.1, if_neg fun hpos => he hpos.1]

/-- The length of a decimal number with this many digits before the rest of it. -/
def lengthBehind (whole : Nat) : List Char → Nat
  | '.' :: rest =>
    let fraction := countWhile Char.isDigit rest
    if whole = 0 ∧ fraction = 0 then 0
    else whole + 1 + fraction + exponentLength (rest.drop fraction)
  | rest => if whole = 0 then 0 else whole + exponentLength rest

theorem decimalLength_eq (cs : List Char) : decimalLength cs =
    lengthBehind (countWhile Char.isDigit cs) (cs.drop (countWhile Char.isDigit cs)) := rfl

theorem lengthBehind_point (whole : Nat) (cs : List Char) : lengthBehind whole ('.' :: cs) =
    if whole = 0 ∧ countWhile Char.isDigit cs = 0 then 0
    else whole + 1 + countWhile Char.isDigit cs +
      exponentLength (cs.drop (countWhile Char.isDigit cs)) := rfl

theorem lengthBehind_of_ne {whole : Nat} {cs : List Char} (h : '.' ∉ cs.head?) :
    lengthBehind whole cs = if whole = 0 then 0 else whole + exponentLength cs := by
  unfold lengthBehind
  split
  · simp at h
  · rfl

theorem le_lengthBehind (whole : Nat) (cs : List Char) : whole ≤ lengthBehind whole cs := by
  unfold lengthBehind
  split
  · dsimp only
    split <;> omega
  · split <;> omega

theorem lengthBehind_of_stops {whole : Nat} (hx : Stops x) : lengthBehind whole x = whole := by
  have hpoint : '.' ∉ x.head? := fun h => absurd (hx '.' h) (by decide)
  rw [lengthBehind_of_ne hpoint, exponentLength_of_stops hx]
  split <;> omega

theorem lengthBehind_cut {whole : Nat} (hx : Stops x)
    (h : lengthBehind whole (w ++ b) ≤ whole + w.length) :
    lengthBehind whole (w ++ x) = lengthBehind whole (w ++ b) := by
  cases w with
  | nil =>
    have hle := le_lengthBehind whole ([] ++ b)
    rw [List.nil_append, lengthBehind_of_stops hx]
    exact Nat.le_antisymm hle h
  | cons c w =>
    rw [List.cons_append, List.length_cons] at h
    rw [List.cons_append, List.cons_append]
    by_cases hc : c = '.'
    · subst hc
      rw [lengthBehind_point] at h
      rw [lengthBehind_point, lengthBehind_point]
      have hle : countWhile Char.isDigit (w ++ b) ≤ w.length := by
        split at h <;> omega
      rw [countWhile_cut (hx.fails isDigit_breaks) hle]
      split at h
      · rename_i hnone
        rw [if_pos hnone, if_pos hnone]
      · rename_i hsome
        rw [if_neg hsome, if_neg hsome]
        rw [List.drop_append_of_le_length hle] at h ⊢
        rw [List.drop_append_of_le_length hle, exponentLength_cut hx]
        rw [List.length_drop]
        omega
    · have hpoint (y : List Char) : '.' ∉ (c :: (w ++ y)).head? := by simpa using hc
      rw [lengthBehind_of_ne (hpoint b)] at h
      rw [lengthBehind_of_ne (hpoint x), lengthBehind_of_ne (hpoint b)]
      split at h
      · rename_i hnone
        rw [if_pos hnone, if_pos hnone]
      · rename_i hsome
        have hcut := exponentLength_cut (w := c :: w) (b := b) hx
          (by rw [List.cons_append, List.length_cons]; omega)
        rw [if_neg hsome, if_neg hsome]
        rw [List.cons_append, List.cons_append] at hcut
        rw [hcut]

theorem decimalLength_cut (hx : Stops x) (h : decimalLength (w ++ b) ≤ w.length) :
    decimalLength (w ++ x) = decimalLength (w ++ b) := by
  rw [decimalLength_eq] at h
  have hle : countWhile Char.isDigit (w ++ b) ≤ w.length :=
    Nat.le_trans (le_lengthBehind _ _) h
  have hcut := countWhile_cut (hx.fails isDigit_breaks) hle
  rw [decimalLength_eq, decimalLength_eq, hcut]
  rw [List.drop_append_of_le_length hle] at h ⊢
  rw [List.drop_append_of_le_length hle]
  apply lengthBehind_cut hx
  rw [List.length_drop]
  omega

/-- A number that ends before a cut is as long whatever trivia stands behind the cut. -/
theorem length_cut (hx : Stops x) (h : length (w ++ b) ≤ w.length) :
    length (w ++ x) = length (w ++ b) := by
  have hhex (hle : radixLength isHexMark isHexDigit (w ++ b) ≤ w.length) :=
    radixLength_cut hx (by decide) (by decide) hle
  have hoctal (hle : radixLength isOctalMark isOctalDigit (w ++ b) ≤ w.length) :=
    radixLength_cut hx (by decide) (by decide) hle
  simp only [length] at h ⊢
  by_cases hpos : 0 < radixLength isHexMark isHexDigit (w ++ b)
  · rw [if_pos hpos] at h
    rw [hhex h]
    rw [if_pos hpos, if_pos hpos]
  · rw [if_neg hpos] at h
    rw [hhex (by omega)]
    rw [if_neg hpos, if_neg hpos]
    by_cases hpos' : 0 < radixLength isOctalMark isOctalDigit (w ++ b)
    · rw [if_pos hpos'] at h
      rw [hoctal h]
      rw [if_pos hpos', if_pos hpos']
    · rw [if_neg hpos'] at h
      rw [hoctal (by omega)]
      rw [if_neg hpos', if_neg hpos', decimalLength_cut hx h]

/-- Without a digit and a point in front there is no number. -/
theorem length_eq_zero {c : Char} (cs : List Char) (hd : c.isDigit = false) (hp : c ≠ '.') :
    length (c :: cs) = 0 := by
  have hzero : c ≠ '0' := by
    rintro rfl
    exact absurd hd (by decide)
  have hcount : countWhile Char.isDigit (c :: cs) = 0 := countWhile_eq_zero (by simpa using hd)
  simp [length, radixLength_of_ne hzero, decimalLength_eq, hcount, lengthBehind, hp]

end Numeral

namespace Quotation

variable {quote : Char} {cs y : List Char} {n : Nat}

theorem length?_eq_none (h : opens cs = false) : length? cs = none := by
  cases hs : length? cs with
  | none => rfl
  | some n =>
    rw [opens_of_length? hs] at h
    exact Bool.noConfusion h

theorem isQuote_breaks : breaks.any isQuote = false := by decide
theorem isMark_breaks : breaks.any isMark = false := by decide

/-- A literal on one line is found by its own characters. -/
theorem lineLength?_take (h : lineLength? quote cs = some n) (y : List Char) :
    lineLength? quote (cs.take n ++ y) = some n := by
  fun_induction lineLength? quote cs generalizing n with
  | case1 => simp at h
  | case2 cs =>
    cases h
    simp [lineLength?.eq_def]
  | case3 => simp at h
  | case4 => simp at h
  | case5 => simp at h
  | case6 d ds hd hq hn ih =>
    obtain ⟨m, hm, rfl⟩ := Option.map_eq_some_iff.1 h
    rw [List.take_succ_cons, List.take_succ_cons, List.cons_append, List.cons_append,
      lineLength?.eq_def]
    simp [hq, hd, ih hm]
  | case7 c cs hq hn hb ih =>
    obtain ⟨m, hm, rfl⟩ := Option.map_eq_some_iff.1 h
    rw [List.take_succ_cons, List.cons_append, lineLength?.eq_def]
    simp [hq, hn, hb, ih hm]

/-- Three closing quotes are found by the characters up to them. -/
theorem blockLength?_take (h : blockLength? quote cs = some n) :
    blockLength? quote (cs.take n) = some n := by
  induction cs generalizing n with
  | nil => simp [blockLength?] at h
  | cons c cs ih =>
    have hthree := three_le_of_blockLength? h
    have hle := (blockLength?_bounds h).2
    have hp : [quote, quote, quote].isPrefixOf ((c :: cs).take n)
        = [quote, quote, quote].isPrefixOf (c :: cs) := by
      have hshort : [quote, quote, quote].length ≤ ((c :: cs).take n).length := by
        rw [List.length_take_of_le hle]
        exact hthree
      have happend := isPrefixOf_append_of_le hshort ((c :: cs).drop n)
      rw [List.take_append_drop] at happend
      exact happend.symm
    rw [blockLength?] at h
    split at h
    · rename_i hquotes
      cases h
      rw [List.take_succ_cons] at hp ⊢
      rw [blockLength?, hp, if_pos hquotes]
    · rename_i hquotes
      obtain ⟨m, hm, rfl⟩ := Option.map_eq_some_iff.1 h
      rw [List.take_succ_cons] at hp ⊢
      rw [blockLength?, hp, if_neg hquotes, ih hm]
      rfl

/-- What ends a literal on one line does not begin one of three quotes, if no quote comes next. -/
theorem isPrefixOf_of_lineLength? (hq : isQuote quote = true)
    (h : lineLength? quote cs = some n) (hy : ∀ c ∈ y.head?, isQuote c = false) :
    [quote, quote].isPrefixOf (cs.take n ++ y) = false := by
  rw [← Bool.not_eq_true]
  intro hp
  obtain ⟨ds, hds⟩ := List.isPrefixOf_iff_prefix.1 hp
  -- a literal that goes on with a quote is empty
  have hn : n = 1 := by
    have htake := lineLength?_take h y
    rw [← hds] at htake
    simpa [lineLength?, eq_comm] using htake
  subst hn
  cases cs with
  | nil => simp [lineLength?] at h
  | cons c cs =>
    have hy' : y = quote :: ds := by simpa using (List.cons.inj hds).2.symm
    have hnone : isQuote quote = false := hy quote (by simp [hy'])
    rw [hq] at hnone
    exact Bool.noConfusion hnone

/-- A literal is found by its own characters, unless it is empty and a quote comes next. -/
theorem closedLength?_take (h : closedLength? cs = some n) (ho : opens (cs.drop n) = false)
    (hy : ∀ c ∈ y.head?, isQuote c = false) : closedLength? (cs.take n ++ y) = some n := by
  cases cs with
  | nil => simp [closedLength?] at h
  | cons quote cs =>
    simp only [closedLength?] at h
    by_cases hq : isQuote quote = true
    · rw [if_pos hq] at h
      by_cases hopen : [quote, quote].isPrefixOf cs = true
      · obtain ⟨ds, rfl⟩ := List.isPrefixOf_iff_prefix.1 hopen
        cases hb : blockLength? quote ds with
        | some m =>
          have hn : 3 + m = n := by simpa [hb] using h
          subst hn
          have hb' := blockLength?_append (blockLength?_take hb) y
          simp [Nat.add_comm 3 m, closedLength?, hq, hb']
        | none =>
          -- the third quote would open another literal
          have hn : 2 = n := by simpa [hb, lineLength?] using h
          subst hn
          have hnext : opens (quote :: ds) = false := ho
          rw [opens_cons hq ds] at hnext
          exact Bool.noConfusion hnext
      · have hline : (lineLength? quote cs).map (· + 1) = some n := by simpa [hopen] using h
        obtain ⟨m, hm, rfl⟩ := Option.map_eq_some_iff.1 hline
        have hopen' := isPrefixOf_of_lineLength? hq hm hy
        rw [List.take_succ_cons, List.cons_append]
        simp only [closedLength?, hq, if_true, hopen', lineLength?_take hm y]
        rfl
    · rw [if_neg hq] at h
      exact absurd h (by simp)

theorem length?_take (h : length? cs = some n) (ho : opens (cs.drop n) = false)
    (hy : ∀ c ∈ y.head?, isQuote c = false) : length? (cs.take n ++ y) = some n := by
  obtain ⟨hpos, hle⟩ := length?_bounds h
  obtain ⟨m, hm, hn⟩ := Option.map_eq_some_iff.1 h
  subst hn
  have hne : cs.take (markLength cs + m) ≠ [] := by
    apply List.ne_nil_of_length_pos
    rw [List.length_take_of_le hle]
    exact hpos
  have hmark : markLength (cs.take (markLength cs + m) ++ y) = markLength cs := by
    cases cs with
    | nil => simp at hne
    | cons c cs =>
      rw [markLength_append hne]
      cases hk : markLength (c :: cs) + m with
      | zero => omega
      | succ k => rfl
  have hdrop : (cs.take (markLength cs + m) ++ y).drop (markLength cs)
      = (cs.drop (markLength cs)).take m ++ y := by
    rw [List.drop_append_of_le_length, List.drop_take, Nat.add_sub_cancel_left]
    rw [List.length_take_of_le hle]
    exact Nat.le_add_right ..
  rw [← List.drop_drop] at ho
  rw [length?, hmark, hdrop, closedLength?_take hm ho hy]
  rfl

/-- A literal that ends before a cut is as long whatever trivia stands behind the cut, unless
another one opens right behind it. -/
theorem length?_cut (hx : Stops x) (h : length? (w ++ b) = some n) (hle : n ≤ w.length)
    (ho : opens ((w ++ b).drop n) = false) : length? (w ++ x) = some n := by
  have hsplit : w ++ x = (w ++ b).take n ++ (w.drop n ++ x) := by
    rw [List.take_append_of_le_length hle, ← List.append_assoc, List.take_append_drop]
  rw [hsplit]
  apply length?_take h ho
  rw [List.drop_append_of_le_length hle] at ho
  cases hw : w.drop n with
  | nil => exact hx.fails isQuote_breaks
  | cons c cs =>
    intro d hd
    obtain rfl : c = d := by simpa using hd
    rw [hw] at ho
    cases hq : isQuote c with
    | false => rfl
    | true =>
      rw [List.cons_append, opens_cons hq] at ho
      exact Bool.noConfusion ho

theorem opens_cut (hx : Stops x) (hw : w ≠ []) (h : opens (w ++ b) = false) :
    opens (w ++ x) = false := by
  cases w with
  | nil => exact absurd rfl hw
  | cons c w =>
    cases w with
    | nil =>
      by_cases hm : isMark c = true
      · cases x with
        | nil => simp [opens, markLength, hm]
        | cons d x =>
          have hd : isQuote d = false := fails_of_mem_breaks isQuote_breaks (hx d rfl)
          simp [opens, markLength, hm, hd]
      · simpa [opens, markLength, hm] using h
    | cons d w =>
      by_cases hm : isMark c = true
      · simpa [opens, markLength, hm] using h
      · simpa [opens, markLength, hm] using h

end Quotation

namespace Lexeme

open Numeral (countWhile countWhile_cons countWhile_cut)

variable {n : Nat} {lexeme : Lexeme}

theorem isWordRest_breaks : breaks.any isWordRest = false := by decide +kernel

theorem isWordStart_breaks : breaks.any isWordStart = false := by decide +kernel

theorem text_breaks (s : Sign) : breaks.any (s.text.toList.contains ·) = false := by
  cases s <;> decide

/-- A sign is not longer whatever trivia stands behind the cut. -/
theorem isPrefixOf_of_cut (hx : Stops x) (s : Sign)
    (h : s.text.toList.isPrefixOf (w ++ x) = true) : s.text.toList.isPrefixOf (w ++ b) = true := by
  have htext (c : Char) (hc : c ∈ s.text.toList) : c ∉ breaks := by
    intro hbreak
    have hnone := fails_of_mem_breaks (text_breaks s) hbreak
    rw [List.contains_iff_mem.2 hc] at hnone
    exact Bool.noConfusion hnone
  generalize s.text.toList = text at h htext
  induction text generalizing w with
  | nil => simp
  | cons c text ih =>
    cases w with
    | nil =>
      cases x with
      | nil => simp at h
      | cons d x =>
        have hd : d ∈ breaks := hx d rfl
        have hc : c = d := by
          rw [List.nil_append, List.isPrefixOf, Bool.and_eq_true, beq_iff_eq] at h
          exact h.1
        exact absurd (hc ▸ hd) (htext c (by simp))
    | cons d w =>
      rw [List.cons_append, List.isPrefixOf, Bool.and_eq_true] at h ⊢
      exact ⟨h.1, ih h.2 fun e he => htext e (by simp [he])⟩

theorem sign?_cut (hx : Stops x) {s : Sign} (h : sign? (w ++ b) = some s)
    (hle : s.text.length ≤ w.length) : sign? (w ++ x) = some s := by
  rw [sign?, List.find?_eq_some_iff_append] at h ⊢
  obtain ⟨hs, before, after, hall, hbefore⟩ := h
  rw [← String.length_toList] at hle
  refine ⟨?_, before, after, hall, fun t ht => ?_⟩
  · rw [isPrefixOf_append_of_le hle] at hs ⊢
    exact hs
  · have hnone := hbefore t ht
    rw [Bool.not_eq_true'] at hnone ⊢
    rw [← Bool.not_eq_true] at hnone ⊢
    exact fun hprefix => hnone (isPrefixOf_of_cut hx t hprefix)

/-- The characters with which a lexeme that is no trivia may begin. -/
def begins (c : Char) : Bool :=
  Quotation.isQuote c || Quotation.isMark c || c.isDigit || c == '.' || isWordStart c ||
    (opening? c).isSome || (closing? c).isSome || Sign.all.any (·.text.toList.head? == some c)

theorem begins_breaks : breaks.any begins = false := by decide +kernel

theorem sign?_of_begins {c : Char} (hc : begins c = false) (cs : List Char) :
    sign? (c :: cs) = none := by
  rw [sign?, List.find?_eq_none]
  intro s hs h
  obtain ⟨d, ds, htext⟩ := List.exists_cons_of_ne_nil s.text_ne_empty
  rw [htext, List.isPrefixOf, Bool.and_eq_true, beq_iff_eq] at h
  have hhead : Sign.all.any (·.text.toList.head? == some c) = true :=
    List.any_eq_true.2 ⟨s, hs, by simp [htext, h.1]⟩
  simp [begins, hhead] at hc

/-- Only trivia begins with any other character. -/
theorem next?_of_begins {c : Char} (cs : List Char) (hc : begins c = false) : next? (c :: cs) =
    if 0 < gapLength (c :: cs) then some (gap, gapLength (c :: cs))
    else if 0 < lineEndLength (c :: cs) then some (lineEnd, lineEndLength (c :: cs))
    else none := by
  have hsign := sign?_of_begins hc cs
  simp only [begins, Bool.or_eq_false_iff, beq_eq_false_iff_ne, Option.isSome_eq_false_iff,
    Option.isNone_iff_eq_none] at hc
  obtain ⟨⟨⟨⟨⟨⟨⟨hquote, hmark⟩, hdigit⟩, hpoint⟩, hstart⟩, hopening⟩, hclosing⟩, -⟩ := hc
  have hopens : Quotation.opens (c :: cs) = false := by
    simp [Quotation.opens, Quotation.markLength, hmark, hquote]
  have hstring : Quotation.length? (c :: cs) = none := Quotation.length?_eq_none hopens
  have hnumber : Numeral.length (c :: cs) = 0 := Numeral.length_eq_zero cs hdigit hpoint
  have hword : wordLength (c :: cs) = 0 := by simp [wordLength, hstart]
  simp [next?, hstring, hopens, hnumber, hword, hopening, hclosing, hsign]

theorem next?_of_mem_breaks {c : Char} (cs : List Char) (hc : c ∈ breaks) : next? (c :: cs) =
    if 0 < gapLength (c :: cs) then some (gap, gapLength (c :: cs))
    else if 0 < lineEndLength (c :: cs) then some (lineEnd, lineEndLength (c :: cs))
    else none :=
  next?_of_begins cs (fails_of_mem_breaks begins_breaks hc)

theorem lineEndLength_return (cs : List Char) :
    lineEndLength ('\r' :: cs) = if cs.head? = some '\n' then 2 else 0 := by
  cases cs with
  | nil => rfl
  | cons c cs =>
    by_cases hc : c = '\n'
    · simp [lineEndLength, hc]
    · simp [lineEndLength, hc]

theorem lineEndLength_of_ne {c : Char} (cs : List Char) (hn : c ≠ '\n') (hr : c ≠ '\r') :
    lineEndLength (c :: cs) = 0 := by
  simp [lineEndLength, hn, hr]

theorem gapLength_hash (cs : List Char) :
    gapLength ('#' :: cs) = 1 + countWhile (· != '\n') cs := by simp [gapLength]

theorem gapLength_backslash (cs : List Char) : gapLength ('\\' :: cs) =
    if 0 < lineEndLength cs then 1 + lineEndLength cs else 0 := by
  fun_cases lineEndLength cs with
  | case1 => simp [gapLength]
  | case2 => simp [gapLength]
  | case3 h1 h2 =>
    unfold gapLength
    split
    · simp_all
    · simp_all
    · simp_all
    · simp [countWhile_cons, isSpace]

theorem gapLength_of_ne {c : Char} (cs : List Char) (hb : c ≠ '\\') (hh : c ≠ '#') :
    gapLength (c :: cs) = countWhile isSpace (c :: cs) := by
  simp [gapLength, hb, hh]

/-- Where a text does not begin as trivia does there is no trivia. -/
theorem lengths_of_notMem_breaks {c : Char} (cs : List Char) (hc : c ∉ breaks) :
    gapLength (c :: cs) = 0 ∧ lineEndLength (c :: cs) = 0 := by
  simp only [breaks, List.mem_cons, List.not_mem_nil, or_false, not_or] at hc
  obtain ⟨h1, h2, h3, h4, h5, h6, h7⟩ := hc
  constructor
  · rw [gapLength_of_ne cs h6 h7, countWhile_cons]
    simp [isSpace, h1, h2, h3]
  · exact lineEndLength_of_ne cs h4 h5

theorem countWhile_of_lt {test : Char → Bool} (h : countWhile test (w ++ b) < w.length) :
    countWhile test (w ++ x) = countWhile test (w ++ b) :=
  congrArg List.length (takeWhile_of_lt h)

theorem lineEndLength_cut (hpos : 0 < lineEndLength (w ++ b))
    (hle : lineEndLength (w ++ b) ≤ w.length) :
    lineEndLength (w ++ x) = lineEndLength (w ++ b) := by
  cases w with
  | nil => exact absurd (Nat.lt_of_lt_of_le hpos hle) (Nat.lt_irrefl 0)
  | cons c w =>
    by_cases hn : c = '\n'
    · subst hn
      rfl
    · by_cases hr : c = '\r'
      · subst hr
        rw [List.cons_append, lineEndLength_return] at hpos hle
        rw [List.cons_append, List.cons_append, lineEndLength_return, lineEndLength_return]
        cases w with
        | nil =>
          rw [List.length_singleton] at hle
          split at hpos <;> simp_all
        | cons d w => rfl
      · rw [List.cons_append, lineEndLength_of_ne _ hn hr] at hpos
        exact absurd hpos (Nat.lt_irrefl 0)

/-- A gap with more text behind it before the cut is as long whatever stands behind the cut. -/
theorem gapLength_cut (hpos : 0 < gapLength (w ++ b)) (hlt : gapLength (w ++ b) < w.length) :
    gapLength (w ++ x) = gapLength (w ++ b) := by
  cases w with
  | nil => simp at hlt
  | cons c w =>
    rw [List.cons_append] at hpos
    rw [List.cons_append, List.length_cons] at hlt
    rw [List.cons_append, List.cons_append]
    by_cases hhash : c = '#'
    · subst hhash
      rw [gapLength_hash] at hlt
      have hcount : countWhile (· != '\n') (w ++ x) = countWhile (· != '\n') (w ++ b) :=
        countWhile_of_lt (by omega)
      rw [gapLength_hash, gapLength_hash, hcount]
    · by_cases hback : c = '\\'
      · subst hback
        rw [gapLength_backslash] at hpos hlt
        split at hpos
        · rename_i hend
          rw [if_pos hend] at hlt
          have hcut : lineEndLength (w ++ x) = lineEndLength (w ++ b) :=
            lineEndLength_cut hend (by omega)
          rw [gapLength_backslash, gapLength_backslash, hcut]
        · omega
      · rw [gapLength_of_ne _ hback hhash, ← List.cons_append] at hlt
        rw [gapLength_of_ne _ hback hhash, gapLength_of_ne _ hback hhash, ← List.cons_append,
          ← List.cons_append, countWhile_of_lt hlt]

theorem wordLength_cut (hx : Stops x) (hw : w ≠ []) (h : wordLength (w ++ b) ≤ w.length) :
    wordLength (w ++ x) = wordLength (w ++ b) := by
  cases w with
  | nil => exact absurd rfl hw
  | cons c w =>
    simp only [List.cons_append, wordLength, List.length_cons] at h ⊢
    split at h
    · rename_i hc
      have hcut : countWhile isWordRest (w ++ x) = countWhile isWordRest (w ++ b) :=
        countWhile_cut (hx.fails isWordRest_breaks) (by omega)
      rw [if_pos hc, if_pos hc, hcut]
    · rename_i hc
      rw [if_neg hc, if_neg hc]

theorem gapLength_of_lineEnd {cs y : List Char} (h : 0 < lineEndLength (w ++ cs)) (hw : w ≠ []) :
    gapLength (w ++ y) = 0 := by
  cases w with
  | nil => exact absurd rfl hw
  | cons c w =>
    have hc : c = '\n' ∨ c = '\r' := by
      by_contra hne
      rw [not_or] at hne
      rw [List.cons_append, lineEndLength_of_ne _ hne.1 hne.2] at h
      exact Nat.lt_irrefl 0 h
    rcases hc with rfl | rfl
    · simp [gapLength, countWhile_cons, isSpace]
    · simp [gapLength, countWhile_cons, isSpace]

/-- A literal does not begin as trivia does. -/
theorem exists_cons_of_length? {cs : List Char} (h : Quotation.length? cs = some n) :
    ∃ c ds, cs = c :: ds ∧ c ∉ breaks := by
  obtain ⟨c, ds, rfl, hopens⟩ := Quotation.exists_cons_of_opens (Quotation.opens_of_length? h)
  refine ⟨c, ds, rfl, fun hmem => ?_⟩
  rcases hopens with hquote | hmark
  · exact List.any_eq_false.1 Quotation.isQuote_breaks c hmem hquote
  · exact List.any_eq_false.1 Quotation.isMark_breaks c hmem hmark

/-- A literal that is closed is the next lexeme. -/
theorem next?_of_length? {cs : List Char} (h : Quotation.length? cs = some n) :
    next? cs = some (string, n) := by
  obtain ⟨c, ds, rfl, hc⟩ := exists_cons_of_length? h
  obtain ⟨hgap, hend⟩ := lengths_of_notMem_breaks ds hc
  simp [next?, hgap, hend, h]

/-- Where neither trivia nor a literal comes next the other forms are tried. -/
theorem next?_of_notMem_breaks {c : Char} {cs : List Char} (hc : c ∉ breaks)
    (ho : Quotation.opens (c :: cs) = false) : next? (c :: cs) =
      if 0 < Numeral.length (c :: cs) then some (number, Numeral.length (c :: cs))
      else if 0 < wordLength (c :: cs) then some (word, wordLength (c :: cs))
      else match opening? c, closing? c, sign? (c :: cs) with
        | some b, _, _ => some (opening b, 1)
        | none, some b, _ => some (closing b, 1)
        | none, none, some s => some (sign s, s.text.length)
        | none, none, none => none := by
  obtain ⟨hgap, hend⟩ := lengths_of_notMem_breaks cs hc
  have hopens : ¬Quotation.opens (c :: cs) = true := by simp [ho]
  rw [next?, if_neg (Nat.not_lt.2 (Nat.le_of_eq hgap)), if_neg (Nat.not_lt.2 (Nat.le_of_eq hend)),
    Quotation.length?_eq_none ho]
  exact if_neg hopens

theorem next?_cut_plain {c : Char} {v : List Char} (hx : Stops x) (hc : c ∉ breaks)
    (ho : Quotation.opens (c :: v ++ b) = false)
    (h : next? (c :: v ++ b) = some (lexeme, n)) (hle : n ≤ (c :: v).length) :
    next? (c :: v ++ x) = some (lexeme, n) := by
  have hne : c :: v ≠ [] := by simp
  have ho' : Quotation.opens (c :: v ++ x) = false := Quotation.opens_cut hx hne ho
  have hnumber (hle : Numeral.length (c :: v ++ b) ≤ (c :: v).length) :
      Numeral.length (c :: v ++ x) = Numeral.length (c :: v ++ b) := Numeral.length_cut hx hle
  have hword (hle : wordLength (c :: v ++ b) ≤ (c :: v).length) :
      wordLength (c :: v ++ x) = wordLength (c :: v ++ b) := wordLength_cut hx hne hle
  have hsign {s : Sign} (hs : sign? (c :: v ++ b) = some s)
      (hle : s.text.length ≤ (c :: v).length) :
      sign? (c :: v ++ x) = some s := sign?_cut hx hs hle
  simp only [List.cons_append] at *
  rw [next?_of_notMem_breaks hc ho] at h
  rw [next?_of_notMem_breaks hc ho']
  by_cases hpos : 0 < Numeral.length (c :: (v ++ b))
  · rw [if_pos hpos] at h
    cases h
    rw [hnumber hle, if_pos hpos]
  · rw [if_neg hpos] at h
    rw [hnumber (by omega), if_neg hpos]
    by_cases hpos' : 0 < wordLength (c :: (v ++ b))
    · rw [if_pos hpos'] at h
      cases h
      rw [hword hle, if_pos hpos']
    · rw [if_neg hpos'] at h
      rw [hword (by omega), if_neg hpos']
      cases hopening : opening? c with
      | some bracket => simpa [hopening] using h
      | none =>
        cases hclosing : closing? c with
        | some bracket => simpa [hopening, hclosing] using h
        | none =>
          simp only [hopening, hclosing] at h ⊢
          cases hs : sign? (c :: (v ++ b)) with
          | none =>
            rw [hs] at h
            simp at h
          | some s =>
            rw [hs] at h
            cases h
            rw [hsign hs hle]

theorem next?_cut_trivia {c : Char} {v : List Char} (hc : c ∈ breaks)
    (h : next? (c :: v ++ b) = some (lexeme, n)) (hle : n ≤ (c :: v).length)
    (hgap : lexeme = .gap → n < (c :: v).length) :
    next? (c :: v ++ x) = some (lexeme, n) := by
  rw [List.cons_append, next?_of_mem_breaks _ hc, ← List.cons_append] at h ⊢
  split at h
  · rename_i hpos
    cases h
    have hcut : gapLength (c :: v ++ x) = gapLength (c :: v ++ b) := gapLength_cut hpos (hgap rfl)
    rw [hcut, if_pos hpos]
  · split at h
    · rename_i hend
      cases h
      have hcut : lineEndLength (c :: v ++ x) = lineEndLength (c :: v ++ b) :=
        lineEndLength_cut hend hle
      rw [gapLength_of_lineEnd hend (by simp), hcut, if_neg (Nat.lt_irrefl 0), if_pos hend]
    · simp at h

/-- The lexeme that ends before a cut is the same whatever trivia stands behind the cut, but for a
gap that reaches up to it, and a string with another one right behind it. -/
theorem next?_cut (hx : Stops x) (h : next? (w ++ b) = some (lexeme, n)) (hle : n ≤ w.length)
    (hclosed : lexeme ≠ .unterminated) (hgap : lexeme = .gap → n < w.length)
    (hstring : lexeme = .string → Quotation.opens ((w ++ b).drop n) = false) :
    next? (w ++ x) = some (lexeme, n) := by
  have hw : w ≠ [] := by
    apply List.ne_nil_of_length_pos
    exact Nat.lt_of_lt_of_le (next?_bounds h).1 hle
  obtain ⟨c, v, rfl⟩ := List.exists_cons_of_ne_nil hw
  by_cases hc : c ∈ breaks
  · exact next?_cut_trivia hc h hle hgap
  · cases ho : Quotation.opens (c :: v ++ b) with
    | false => exact next?_cut_plain hx hc ho h hle
    | true =>
      rcases next?_of_opens ho with ⟨m, hm⟩ | hnone
      · rw [hm] at h
        cases h
        have hlength := reads_of_next? hm
        exact next?_of_length? (Quotation.length?_cut hx hlength hle (hstring rfl))
      · rw [hnone] at h
        cases h
        exact absurd rfl hclosed

end Lexeme

end BuildTyping
