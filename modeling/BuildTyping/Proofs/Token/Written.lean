import BuildTyping.Proofs.Token.Insertion
import BuildTyping.Proofs.Token.Literal
import BuildTyping.Proofs.Token.Numeral

/-!
# A line of lexemes

What a lexeme of each class is, said without reading it. Lexemes that are written on one line with
blanks between them are read back one by one, whatever they are.
-/

namespace BuildTyping

/-- The text of a lexeme, the kind of its token and the value. -/
inductive Writes : List Char → TokenKind → List Char → Prop where
  | identifier {c : Char} {cs : List Char} (hc : Lexeme.isWordStart c = true)
      (hcs : ∀ d ∈ cs, Lexeme.isWordRest d = true)
      (free : ∀ word : Keyword, word.text.toList ≠ c :: cs) :
      Writes (c :: cs) .identifier (c :: cs)
  | keyword (word : Keyword) : Writes word.text.toList (.keyword word) word.text.toList
  | int {text : List Char} (form : Numeral.Form text) (whole : Numeral.Whole text) :
      Writes text .int text
  | float {text : List Char} (form : Numeral.Form text) (whole : ¬Numeral.Whole text) :
      Writes text .float text
  | string {mark body : List Char} {quote : Char} (hlength : mark.length ≤ 1)
      (hmark : ∀ c ∈ mark, Quotation.isMark c = true) (hq : Quotation.isQuote quote = true)
      (inline : Quotation.Inline quote body) :
      Writes (mark ++ ([quote] ++ body ++ [quote])) .string
        (if mark.any Quotation.isRawMark then body else Quotation.unescape body)
  | sign (s : Sign) : Writes s.text.toList (.sign s) s.text.toList
  | opening (b : Bracket) : Writes [b.opener] (.opening b) [b.opener]
  | closing (b : Bracket) : Writes [b.closer] (.closing b) [b.closer]

structure Written where
  text : List Char
  kind : TokenKind
  value : List Char
  writes : Writes text kind value

/-- A lexeme behind blanks. -/
structure Spaced where
  gap : List Char
  ne : gap ≠ []
  blank : ∀ c ∈ gap, c = ' ' ∨ c = '\t' ∨ c = '\x0c'
  word : Written

/-- What the token of the lexeme says at an offset. -/
def Written.placed (w : Written) (offset : Nat) : TokenKind × String × Nat × Nat :=
  (w.kind, String.ofList w.value, offset, offset + byteLength w.text)

def Spaced.text (s : Spaced) : List Char := s.gap ++ s.word.text

def lineText (first : Written) (more : List Spaced) : List Char :=
  first.text ++ more.flatMap Spaced.text

/-- What the tokens of the lexemes say from an offset on. -/
def placedFrom (offset : Nat) : List Spaced → List (TokenKind × String × Nat × Nat)
  | [] => []
  | s :: more => s.word.placed (offset + byteLength s.gap) ::
      placedFrom (offset + byteLength s.text) more

/-- What the tokens of a line say: those of its lexemes, the one that ends the line and the one that
ends the source. -/
def linePlaced (first : Written) (more : List Spaced) : List (TokenKind × String × Nat × Nat) :=
  let n := byteLength (lineText first more)
  first.placed 0 :: placedFrom (byteLength first.text) more ++
    [(.newline, "", n, n), (.endOfSource, "EOF", n, n)]

/-- Whether each closing bracket matches the latest open one. -/
def Matched (brackets : List Bracket) (kinds : List TokenKind) : Prop :=
  (kinds.foldlM TokenKind.openBehind? brackets).isSome = true

theorem matched_cons {brackets : List Bracket} {kind : TokenKind} {kinds : List TokenKind} :
    Matched brackets (kind :: kinds) ↔
      ∃ after, kind.openBehind? brackets = some after ∧ Matched after kinds := by
  rw [Matched, List.foldlM_cons]
  cases kind.openBehind? brackets with
  | none => simp
  | some after => simp [Matched]

namespace Quotation

variable {quote : Char} {body cs : List Char} {n : Nat}

theorem lineLength?_of_inline (hb : quote ≠ '\\') (h : Inline quote body) (y : List Char) :
    lineLength? quote (body ++ quote :: y) = some (body.length + 1) := by
  induction h with
  | nil => simp [lineLength?.eq_def]
  | plain hq hn hback _ ih =>
    rw [List.cons_append, lineLength?.eq_def]
    simp [hq, hn, hback, ih]
  | escaped hn _ ih =>
    rw [List.cons_append, List.cons_append, lineLength?.eq_def]
    simp [Ne.symm hb, hn, ih]

theorem ne_backslash_of_isQuote (hq : isQuote quote = true) : quote ≠ '\\' := by
  rintro rfl
  exact absurd hq (by decide)

theorem utf8Size_of_isQuote (hq : isQuote quote = true) : quote.utf8Size = 1 := by
  simp only [isQuote, Bool.or_eq_true, beq_iff_eq] at hq
  rcases hq with rfl | rfl <;> rfl

/-- No quote passes a test that fails for both. -/
theorem isQuote_eq_false {test : Char → Bool} {c : Char}
    (h : ['\x22', '\''].any test = false) (hc : test c = true) : isQuote c = false := by
  rw [← Bool.not_eq_true]
  intro hq
  have hmem : c ∈ ['\x22', '\''] := by simpa [isQuote] using hq
  exact List.any_eq_false.1 h c hmem hc

theorem opens_eq_false {c : Char} (hc : isQuote c = false)
    (hcs : ∀ d ∈ cs.head?, isQuote d = false) : opens (c :: cs) = false := by
  by_cases hm : isMark c = true
  · cases cs with
    | nil => simp [opens, markLength, hm]
    | cons d cs => simpa [opens, markLength, hm] using hcs
  · simpa [opens, markLength, hm] using hc

/-- A literal on one line is read to its end. -/
theorem closedLength?_line (hq : isQuote quote = true) (h : Inline quote body) :
    closedLength? ([quote] ++ body ++ [quote]) = some ([quote] ++ body ++ [quote]).length := by
  have hline := lineLength?_of_inline (ne_backslash_of_isQuote hq) h []
  have hblock : [quote, quote].isPrefixOf (body ++ [quote]) = false := by
    have hclosed := isPrefixOf_of_lineLength? (y := []) hq hline (by simp)
    rwa [List.append_nil, List.take_of_length_le (by simp)] at hclosed
  simp [closedLength?, hq, hblock, hline]

/-- A mark is read before the literal that it belongs to. -/
theorem length?_marked {mark : List Char} (hlength : mark.length ≤ 1)
    (hmark : ∀ c ∈ mark, isMark c = true) (hq : isQuote quote = true) (cs : List Char) :
    length? (mark ++ quote :: cs) = (closedLength? (quote :: cs)).map (mark.length + ·) := by
  match mark with
  | [] => simp [length?, markLength, isMark_eq_false_of_isQuote hq]
  | [c] => simp [length?, markLength, hmark c (by simp)]
  | _ :: _ :: _ => simp at hlength

/-- A literal on one line behind a mark is read to its end. -/
theorem length?_line {mark : List Char} (hlength : mark.length ≤ 1)
    (hmark : ∀ c ∈ mark, isMark c = true) (hq : isQuote quote = true) (h : Inline quote body) :
    length? (mark ++ ([quote] ++ body ++ [quote])) =
      some (mark ++ ([quote] ++ body ++ [quote])).length := by
  rw [List.append_assoc, List.singleton_append, length?_marked hlength hmark hq,
    ← List.singleton_append, ← List.append_assoc, closedLength?_line hq h, Option.map_some,
    ← List.length_append]

end Quotation

namespace Lexeme

variable {c : Char} {cs : List Char} {n : Nat}

theorem isDigit_of_isWordStart (hc : isWordStart c = true) : c.isDigit = false := by
  rw [← Bool.not_eq_true]
  intro hd
  simp only [Char.isDigit, Bool.and_eq_true, decide_eq_true_eq] at hd
  have hle : c.toNat ≤ 57 := hd.2
  have hne : c ≠ '_' := by
    rintro rfl
    exact absurd hle (by decide)
  rw [isWordStart, isLetter_ascii c (by omega)] at hc
  have hcases : (decide (65 ≤ c.val ∧ c.val ≤ 90) || (97 ≤ c.val && c.val ≤ 122) ||
      c == '_') = true := hc
  simp only [Bool.or_eq_true, Bool.and_eq_true, decide_eq_true_eq, beq_iff_eq, hne,
    or_false] at hcases
  have hge : 65 ≤ c.toNat ∨ 97 ≤ c.toNat := hcases.imp And.left And.left
  omega

theorem notMem_breaks_of_isWordStart (hc : isWordStart c = true) : c ∉ breaks :=
  fun hmem => List.any_eq_false.1 isWordStart_breaks c hmem hc

/-- A word is read up to a character that does not go on with it. -/
theorem next?_word_append {rest : List Char} (hc : isWordStart c = true)
    (hcs : ∀ d ∈ cs, isWordRest d = true) (hrest : ∀ d ∈ rest.head?, isWordRest d = false)
    (hquote : ∀ d ∈ rest.head?, Quotation.isQuote d = false) :
    next? (c :: (cs ++ rest)) = some (.word, (c :: cs).length) := by
  have hopens : Quotation.opens (c :: (cs ++ rest)) = false := by
    apply Quotation.opens_eq_false (Quotation.isQuote_eq_false (by decide +kernel) hc)
    intro d hd
    cases cs with
    | nil => exact hquote d hd
    | cons e cs => exact Quotation.isQuote_eq_false (by decide +kernel) (hcs d (by simp_all))
  have hpoint : c ≠ '.' := by
    rintro rfl
    exact absurd hc (by decide +kernel)
  have hnumber := Numeral.length_eq_zero (cs ++ rest) (isDigit_of_isWordStart hc) hpoint
  have hword : wordLength (c :: (cs ++ rest)) = (c :: cs).length := by
    rw [wordLength, if_pos hc, Numeral.countWhile_of_forall hcs hrest, List.length_cons,
      Nat.add_comm]
  rw [next?_of_notMem_breaks (notMem_breaks_of_isWordStart hc) hopens, hnumber, hword]
  simp

/-- A word is read to its end. -/
theorem next?_word (hc : isWordStart c = true) (hcs : ∀ d ∈ cs, isWordRest d = true) :
    next? (c :: cs) = some (.word, (c :: cs).length) := by
  have halone : next? (c :: (cs ++ [])) = some (.word, (c :: cs).length) :=
    next?_word_append hc hcs (by simp) (by simp)
  rwa [List.append_nil] at halone

/-- The characters that a number begins with. -/
def isNumberStart (c : Char) : Bool := c.isDigit || c == '.'

theorem isNumberStart_breaks : breaks.any isNumberStart = false := by decide

/-- Where a number begins no other lexeme does. -/
theorem next?_of_numeral (h : 0 < Numeral.length cs) :
    next? cs = some (.number, Numeral.length cs) := by
  cases cs with
  | nil => exact absurd h (by decide)
  | cons c ds =>
    have hc : isNumberStart c = true := by
      rw [isNumberStart, Bool.or_eq_true, beq_iff_eq]
      by_contra hnot
      rw [not_or, Bool.not_eq_true] at hnot
      rw [Numeral.length_eq_zero ds hnot.1 hnot.2] at h
      exact absurd h (Nat.lt_irrefl 0)
    have hbreak : c ∉ breaks := by
      intro hmem
      exact List.any_eq_false.1 isNumberStart_breaks c hmem hc
    have hopens : Quotation.opens (c :: ds) = false := by
      have hquote : Quotation.isQuote c = false := Quotation.isQuote_eq_false (by decide) hc
      have hmark : Quotation.isMark c = false := by
        rw [← Bool.not_eq_true]
        intro hm
        simp only [Quotation.isMark, Bool.or_eq_true, beq_iff_eq] at hm
        rcases hm with ((rfl | rfl) | rfl) | rfl <;> exact absurd hc (by decide)
      simp [Quotation.opens, Quotation.markLength, hmark, hquote]
    rw [next?_of_notMem_breaks hbreak hopens, if_pos h]

/-- A number is read to its end. -/
theorem next?_number (h : Numeral.Form cs) : next? cs = some (.number, cs.length) := by
  obtain ⟨c, ds, hcs, -⟩ := h.head
  have hpos : 0 < Numeral.length cs := by
    rw [h.length_eq, hcs]
    exact Nat.succ_pos ds.length
  rw [next?_of_numeral hpos, h.length_eq]

theorem next?_keyword (word : Keyword) :
    next? word.text.toList = some (.word, word.text.toList.length) := by
  cases word <;> decide +kernel

theorem next?_sign (s : Sign) : next? s.text.toList = some (.sign s, s.text.toList.length) := by
  cases s <;> decide +kernel

theorem next?_opening (b : Bracket) : next? [b.opener] = some (.opening b, 1) := by
  cases b <;> decide +kernel

/-- A closing bracket is the next lexeme, whatever stands behind it. -/
theorem next?_closing (b : Bracket) (cs : List Char) :
    next? (b.closer :: cs) = some (.closing b, 1) := by
  have hbreak : b.closer ∉ breaks := by cases b <;> decide
  have hopens : Quotation.opens (b.closer :: cs) = false := by
    cases b <;> simp [Quotation.opens, Quotation.markLength, Quotation.isMark, Quotation.isQuote,
      Bracket.closer]
  have hnumber : Numeral.length (b.closer :: cs) = 0 :=
    Numeral.length_eq_zero cs (by cases b <;> decide) (by cases b <;> decide)
  have hstart : isWordStart b.closer = false := by cases b <;> decide +kernel
  have hopening : opening? b.closer = none := by cases b <;> decide
  have hclosing : closing? b.closer = some b := by cases b <;> decide
  rw [next?_of_notMem_breaks hbreak hopens, hnumber]
  simp [wordLength, hstart, hopening, hclosing]

end Lexeme

/-- The lexeme that is read for a token of this kind. -/
def TokenKind.lexeme : TokenKind → Lexeme
  | identifier | keyword _ => .word
  | int | float => .number
  | string => .string
  | opening b => .opening b
  | closing b => .closing b
  | sign s => .sign s
  | newline => .lineEnd
  | indent | dedent | endOfSource => .gap

/-- The scanner behind a token with this text. -/
def Scanner.behind (s : Scanner) (text rest : List Char) (brackets : List Bracket) : Scanner :=
  { s with
    offset := s.offset + byteLength text
    rest := rest
    brackets := brackets
    lineOpen := true }

/-- The token of a text before the rest of the source. -/
theorem Scanner.emit_append {s : Scanner} {text rest : List Char} (hs : s.rest = text ++ rest)
    (kind : TokenKind) (value : List Char) (brackets : List Bracket) :
    { s with brackets := brackets }.emit kind value text.length =
      ([⟨kind, String.ofList value, s.spanFrom s.offset (byteLength text)⟩],
        s.behind text rest brackets) := by
  simp [emit, skip, behind, spanFrom, position, hs]

namespace Writes

variable {text value rest : List Char} {kind : TokenKind}

theorem next? (h : Writes text kind value) :
    Lexeme.next? text = some (kind.lexeme, text.length) := by
  cases h with
  | identifier hc hcs => exact Lexeme.next?_word hc hcs
  | keyword word => exact Lexeme.next?_keyword word
  | int form | float form => exact Lexeme.next?_number form
  | string hlength hmark hq inline =>
    exact Lexeme.next?_of_length? (Quotation.length?_line hlength hmark hq inline)
  | sign s => exact Lexeme.next?_sign s
  | opening b => exact Lexeme.next?_opening b
  | closing b => exact Lexeme.next?_closing b []

theorem lexeme_ne (h : Writes text kind value) :
    kind.lexeme ≠ .unterminated ∧ kind.lexeme ≠ .gap ∧ kind.lexeme ≠ .lineEnd := by
  cases h <;> simp [TokenKind.lexeme]

/-- A lexeme does not begin as trivia does. -/
theorem exists_cons (h : Writes text kind value) : ∃ c cs, text = c :: cs ∧ c ∉ breaks := by
  cases text with
  | nil => exact absurd h.next? (by simp [Lexeme.next?])
  | cons c cs =>
    refine ⟨c, cs, rfl, fun hc => ?_⟩
    obtain ⟨-, hgap, hend⟩ := h.lexeme_ne
    have hnext := h.next?
    rw [Lexeme.next?_of_mem_breaks cs hc] at hnext
    split at hnext
    · exact hgap (congrArg Prod.fst (Option.some.inj hnext)).symm
    · split at hnext
      · exact hend (congrArg Prod.fst (Option.some.inj hnext)).symm
      · simp at hnext

/-- Before a blank the lexeme is read as it is alone. -/
theorem next?_append (h : Writes text kind value) (hrest : Stops rest) :
    Lexeme.next? (text ++ rest) = some (kind.lexeme, text.length) := by
  obtain ⟨hclosed, hgap, -⟩ := h.lexeme_ne
  have halone : Lexeme.next? (text ++ []) = some (kind.lexeme, text.length) := by
    rw [List.append_nil]
    exact h.next?
  refine Lexeme.next?_cut hrest halone (Nat.le_refl _) hclosed (fun hk => absurd hk hgap) ?_
  intro _
  rw [List.append_nil, List.drop_length]
  rfl

theorem ofText?_eq_none {c : Char} {cs : List Char}
    (free : ∀ word : Keyword, word.text.toList ≠ c :: cs) :
    Keyword.ofText? (String.ofList (c :: cs)) = none := by
  cases hk : Keyword.ofText? (String.ofList (c :: cs)) with
  | none => rfl
  | some word =>
    refine absurd ?_ (free word)
    rw [Keyword.text_of_ofText? hk, String.toList_ofList]

/-- The token of a lexeme before a blank. -/
theorem readLexeme {s : Scanner} {brackets : List Bracket} (h : Writes text kind value)
    (hs : s.rest = text ++ rest) (hrest : Stops rest)
    (hb : kind.openBehind? s.brackets = some brackets) :
    s.readLexeme = .ok ([⟨kind, String.ofList value, s.spanFrom s.offset (byteLength text)⟩],
      s.behind text rest brackets) := by
  have hnext := h.next?_append hrest
  have htake : s.rest.take text.length = text := by rw [hs, List.take_left]
  have hemit := Scanner.emit_append hs
  rw [← hs] at hnext
  rw [Scanner.readLexeme, hnext]
  simp only [htake]
  cases h with
  | identifier hc hcs free =>
    cases hb
    rw [ofText?_eq_none free]
    exact congrArg Except.ok (hemit ..)
  | keyword word =>
    cases hb
    have hword : Keyword.ofText? (String.ofList word.text.toList) = some word := by
      rw [String.ofList_toList, Keyword.ofText?_text]
    rw [hword]
    exact congrArg Except.ok (hemit ..)
  | int form whole =>
    cases hb
    rw [Numeral.isFloat_eq_false_iff.2 whole]
    exact congrArg Except.ok (hemit ..)
  | float form whole =>
    cases hb
    rw [← Numeral.isFloat_eq_false_iff, Bool.not_eq_false] at whole
    rw [whole]
    exact congrArg Except.ok (hemit ..)
  | string hlength hmark hq inline =>
    cases hb
    rw [Quotation.decode_append _ hlength hmark (.line hq inline)]
    exact congrArg Except.ok (hemit ..)
  | sign | opening =>
    cases hb
    exact congrArg Except.ok (hemit ..)
  | closing b =>
    rw [TokenKind.openBehind?] at hb
    split at hb
    · rename_i hhead
      cases hb
      exact (if_pos hhead).trans (congrArg Except.ok (hemit ..))
    · simp at hb

end Writes

namespace Scanner

variable {s : Scanner} {brackets : List Bracket}

/-- The scanner at the start of a source whose first line has no indentation. -/
def flush (source : List Char) (file : String) : Scanner :=
  ⟨file, 0, source, [], [], false, false⟩

theorem At.flush {source : List Char} (h : byteLength source < 2 ^ 32) (file : String) :
    At source (flush source file) :=
  ⟨h, [], rfl, rfl⟩

/-- Without white space in front the first line opens no block. -/
theorem run_start {c : Char} (cs : List Char) (hc : c ∉ breaks) (file : String) :
    (start (c :: cs) file).run = (flush (c :: cs) file).run := by
  apply run_eq_of_step (List.cons_ne_nil c cs) (List.cons_ne_nil c cs)
  simp only [breaks, List.mem_cons, List.not_mem_nil, or_false, not_or] at hc
  obtain ⟨h1, h2, -, h4, h5, -, h7⟩ := hc
  have hindent : indentation (c :: cs) = [] := by simp [indentation, h1, h2]
  have hblank : isBlankLine (c :: cs) = false := by simp [isBlankLine, h4, h5, h7]
  have hopen : (start (c :: cs) file).openLine = .ok ([], flush (c :: cs) file) := by
    simp [openLine, start, flush, hindent, hblank, columnAfter]
  have hread : (flush (c :: cs) file).Reading := reading_of_within rfl
  rw [hread, step_of_openLine rfl hopen]

theorem stops_spaced (more : List Spaced) : Stops (more.flatMap Spaced.text) := by
  cases more with
  | nil => simp [Stops]
  | cons next more =>
    rw [List.flatMap_cons, Spaced.text, List.append_assoc]
    exact (Joints.of_spaces next.blank).stops.append next.ne _

/-- Within a line the token of a lexeme comes before what is read behind it. -/
theorem run_written {source rest : List Char} {w : Written} {ts : List Token}
    (hline : s.atLineStart = false) (hw : s.rest = w.text ++ rest) (hrest : Stops rest)
    (hb : w.kind.openBehind? s.brackets = some brackets) (hat : At source
      (s.behind w.text rest brackets))
    (hrun : (s.behind w.text rest brackets).run = .ok ts) :
    ∃ t, t.placed = w.placed s.offset ∧ s.run = .ok (t :: ts) := by
  have hstep : s.step = _ := (reading_of_within hline).trans (w.writes.readLexeme hw hrest hb)
  exact ⟨_, placed_spanFrom hat.offset_lt s w.kind (String.ofList w.value),
    (run_ok (rest_ne_nil_of_step hstep)).2 ⟨_, _, ts, hstep, hrun, rfl⟩⟩

/-- The scanner behind a text stands in the source where the scanner before it does. -/
theorem At.behind {source text rest : List Char} (hs : At source s) (hrest : s.rest = text ++ rest)
    (brackets : List Bracket) : At source (s.behind text rest brackets) := by
  obtain ⟨hshort, read, rfl, ho⟩ := hs
  refine ⟨hshort, read ++ text, ?_, ?_⟩
  · rw [hrest, List.append_assoc]
    rfl
  · rw [byteLength_append, ← ho]
    rfl

/-- At the end of a line without blocks two tokens end the source. -/
theorem placed_finish {source : List Char} (hs : At source s) (hr : s.rest = [])
    (hblocks : s.blocks = []) (hopen : s.lineOpen = true) : s.finish.map Token.placed =
      [(.newline, "", byteLength source, byteLength source),
        (.endOfSource, "EOF", byteLength source, byteLength source)] := by
  have hfinish : s.finish =
      [s.layout .newline (byteLength source) 0, .endAt (s.position (byteLength source))] := by
    simp [finish, hblocks, hopen, hs.offset_eq hr]
  have hnewline : (s.layout .newline (byteLength source) 0).placed =
      (.newline, "", byteLength source, byteLength source) := placed_layout hs.short s .newline
  rw [hfinish, List.map_cons, List.map_singleton, hnewline, placed_endAt hs.short]

/-- The lexemes of a line are read one by one, up to the end of the source. -/
theorem run_line {source : List Char} {w : Written} {more : List Spaced} (hs : At source s)
    (hline : s.atLineStart = false) (hblocks : s.blocks = [])
    (hrest : s.rest = w.text ++ more.flatMap Spaced.text)
    (hm : Matched s.brackets (w.kind :: more.map (·.word.kind))) :
    ∃ ts, s.run = .ok ts ∧ ts.map Token.placed =
      w.placed s.offset :: placedFrom (s.offset + byteLength w.text) more ++
        [(.newline, "", byteLength source, byteLength source),
          (.endOfSource, "EOF", byteLength source, byteLength source)] := by
  induction more generalizing s w with
  | nil =>
    obtain ⟨brackets, hb, -⟩ := matched_cons.1 hm
    have hat := hs.behind hrest brackets
    obtain ⟨t, ht, hrun⟩ := run_written hline hrest (stops_spaced []) hb hat (run_nil rfl)
    exact ⟨_, hrun, by rw [List.map_cons, ht, placed_finish hat rfl hblocks rfl]; rfl⟩
  | cons next more ih =>
    obtain ⟨brackets, hb, hm⟩ := matched_cons.1 hm
    have hat := hs.behind hrest brackets
    have hgap : (s.behind w.text ((next :: more).flatMap Spaced.text) brackets).rest =
        next.gap ++ (next.word.text ++ more.flatMap Spaced.text) := by
      rw [List.flatMap_cons, Spaced.text, List.append_assoc]
      rfl
    have hat' : At source ((s.behind w.text (next.word.text ++ more.flatMap Spaced.text)
        brackets).shift (byteLength next.gap)) := hat.behind hgap brackets
    have hskip : (s.behind w.text ((next :: more).flatMap Spaced.text) brackets).run =
        ((s.behind w.text (next.word.text ++ more.flatMap Spaced.text) brackets).shift
          (byteLength next.gap)).run := by
      rw [List.flatMap_cons, Spaced.text, List.append_assoc]
      exact unseen_joints (s := s.behind w.text [] brackets) (.of_spaces next.blank) hline _
    obtain ⟨ts, hmore, hplaced⟩ := ih hat' hline hblocks rfl hm
    obtain ⟨t, ht, hrun⟩ :=
      run_written hline hrest (stops_spaced (next :: more)) hb hat (hskip.trans hmore)
    refine ⟨t :: ts, hrun, ?_⟩
    rw [List.map_cons, ht, hplaced, placedFrom, Spaced.text, byteLength_append, ← Nat.add_assoc]
    rfl

end Scanner

/-- Lexemes on one line with blanks between them, in which closing brackets match open ones, are
the tokens of their text. -/
theorem tokens_line {first : Written} {more : List Spaced} {file : String}
    (hshort : byteLength (lineText first more) < 2 ^ 32)
    (h : Matched [] (first.kind :: more.map (·.word.kind))) :
    ∃ ts, tokens (lineText first more) file = .ok ts ∧
      ts.map Token.placed = linePlaced first more := by
  obtain ⟨c, cs, htext, hc⟩ := first.writes.exists_cons
  have hstart : tokens (lineText first more) file =
      (Scanner.flush (lineText first more) file).run := by
    rw [tokens, lineText, htext]
    exact Scanner.run_start _ hc file
  obtain ⟨ts, hrun, hplaced⟩ := Scanner.run_line (.flush hshort file) rfl rfl rfl h
  refine ⟨ts, hstart.trans hrun, ?_⟩
  simpa [Scanner.flush, linePlaced] using hplaced

/-- A call with a number and a string behind a keyword. -/
theorem tokens_line_call :
    byteLength "return f\t( .5e-3 b'\\\'' )".toList < 2 ^ 32 ∧
    Matched [] [.keyword .return_, .identifier, .opening .round, .float, .string,
      .closing .round] ∧
      ∃ ts, tokens "return f\t( .5e-3 b'\\\'' )".toList "BUILD" = .ok ts ∧
        ts.map Token.placed = [(.keyword .return_, "return", 0, 6), (.identifier, "f", 7, 8),
          (.opening .round, "(", 9, 10), (.float, ".5e-3", 11, 16), (.string, "'", 17, 22),
          (.closing .round, ")", 23, 24), (.newline, "", 24, 24),
          (.endOfSource, "EOF", 24, 24)] := by
  have exponent : Numeral.Exponent ('e' :: (['-'] ++ ['3'])) :=
    .some (.inl rfl) (by simp) (by decide) (by simp)
  have number : Numeral.Form ([] ++ '.' :: (['5'] ++ 'e' :: (['-'] ++ ['3']))) :=
    .point (by simp) (by simp) (by simp) exponent
  have fraction : ¬Numeral.Whole ".5e-3".toList := by
    rw [← Numeral.isFloat_eq_false_iff]
    decide
  have free (word : Keyword) : word.text.toList ≠ ['f'] := by cases word <;> decide
  have escaped : Quotation.Inline '\'' "\\'".toList := .escaped (by decide) .nil
  have literal : Writes (['b'] ++ (['\''] ++ "\\'".toList ++ ['\''])) .string ['\''] :=
    .string (by decide) (by simp [Quotation.isMark]) (by decide) escaped
  let spaced (word : Written) : Spaced := ⟨[' '], by simp, by simp, word⟩
  have hshort : byteLength "return f\t( .5e-3 b'\\\'' )".toList < 2 ^ 32 := by decide +kernel
  have h : Matched [] [.keyword .return_, .identifier, .opening .round, .float, .string,
      .closing .round] := rfl
  refine ⟨hshort, h, ?_⟩
  have hline := @tokens_line ⟨_, _, _, .keyword .return_⟩ [
    spaced ⟨_, _, _, .identifier (by decide +kernel) (by simp) free⟩,
    ⟨['\t'], by simp, by simp, ⟨_, _, _, .opening .round⟩⟩,
    spaced ⟨_, _, _, .float number fraction⟩, spaced ⟨_, _, _, literal⟩,
    spaced ⟨_, _, _, .closing .round⟩] "BUILD" hshort h
  exact hline

end BuildTyping
