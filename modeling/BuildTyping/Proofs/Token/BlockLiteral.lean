import BuildTyping.Proofs.Token.Refusal
import BuildTyping.Proofs.Token.Written

/-!
# Escaped text between three quotes

A text is escaped with a backslash before each of its backslashes and quotes. Between three quotes
it is read back, unless its own last character is the quote: the three quotes in a row that close a
literal are looked for without regard to escapes, and are then found one too early. The quote that
is left over opens a literal that is not closed.
-/

namespace BuildTyping

namespace Quotation

/-- The text with a backslash before each backslash and each quote. -/
def escape (quote : Char) (value : List Char) : List Char :=
  value.flatMap fun c => if c = '\\' ∨ c = quote then ['\\', c] else [c]

/-- The text between three quotes behind a mark. -/
def block (mark : List Char) (quote : Char) (body : List Char) : List Char :=
  mark ++ ([quote, quote, quote] ++ body ++ [quote, quote, quote])

variable {quote c : Char} {value cs y : List Char}

theorem escape_cons (quote c : Char) (value : List Char) : escape quote (c :: value) =
    (if c = '\\' ∨ c = quote then ['\\', c] else [c]) ++ escape quote value := rfl

theorem unescape_cons_of_ne (hc : c ≠ '\\') (cs : List Char) :
    unescape (c :: cs) = c :: unescape cs := by
  simp [unescape, hc]

theorem unescape_escape (hq : isQuote quote = true) (value : List Char) :
    unescape (escape quote value) = value := by
  induction value with
  | nil => rfl
  | cons c value ih =>
    rw [escape_cons]
    by_cases hback : c = '\\'
    · subst hback
      simp [unescape, ih]
    · by_cases hc : c = quote
      · subst hc
        simp only [isQuote, Bool.or_eq_true, beq_iff_eq] at hq
        rcases hq with rfl | rfl <;> simp [unescape, ih]
      · rw [if_neg (not_or.2 ⟨hback, hc⟩), List.singleton_append, unescape_cons_of_ne hback, ih]

/-- An escaped text does not begin with a quote. -/
theorem head_escape (hb : quote ≠ '\\') (hne : value ≠ []) (y : List Char) :
    (escape quote value ++ y).head? ≠ some quote := by
  obtain ⟨c, value, rfl⟩ := List.exists_cons_of_ne_nil hne
  rw [escape_cons]
  split
  · simpa using Ne.symm hb
  · rename_i hc
    rw [not_or] at hc
    simpa using hc.2

theorem blockLength?_of_ne (hc : c ≠ quote) (cs : List Char) :
    blockLength? quote (c :: cs) = (blockLength? quote cs).map (· + 1) := by
  simp [blockLength?, Ne.symm hc]

/-- One quote alone closes nothing. -/
theorem blockLength?_alone (hcs : cs.head? ≠ some quote) :
    blockLength? quote (quote :: cs) = (blockLength? quote cs).map (· + 1) := by
  cases cs with
  | nil => simp [blockLength?]
  | cons d cs =>
    have hd : quote ≠ d := by simpa [eq_comm] using hcs
    simp [blockLength?, hd]

/-- The closing quotes are looked for behind an escaped text, unless quotes on both sides of its end
come in a row. -/
theorem blockLength?_escape (hb : quote ≠ '\\')
    (hy : value.getLast? = some quote → y.head? ≠ some quote) :
    blockLength? quote (escape quote value ++ y) =
      (blockLength? quote y).map (· + (escape quote value).length) := by
  induction value with
  | nil => simp [escape]
  | cons c value ih =>
    have hrest := ih fun hlast => hy (by simp [List.getLast?_cons, hlast])
    rw [escape_cons]
    split
    · rename_i hc
      -- the character behind the backslash is followed by no quote if it is one
      have hc' : blockLength? quote (c :: (escape quote value ++ y)) =
          (blockLength? quote (escape quote value ++ y)).map (· + 1) := by
        rcases hc with rfl | rfl
        · exact blockLength?_of_ne (Ne.symm hb) _
        · apply blockLength?_alone
          by_cases hnil : value = []
          · subst hnil
            exact hy rfl
          · exact head_escape hb hnil y
      simp only [List.cons_append, List.nil_append]
      rw [blockLength?_of_ne (Ne.symm hb), hc', hrest]
      simp [Function.comp_def, Nat.add_assoc]
    · rename_i hc
      rw [not_or] at hc
      rw [List.singleton_append, List.cons_append, blockLength?_of_ne hc.2, hrest]
      simp [Function.comp_def, Nat.add_assoc]

theorem closedLength?_block {n : Nat} (hq : isQuote quote = true)
    (h : blockLength? quote cs = some n) :
    closedLength? (quote :: quote :: quote :: cs) = some (3 + n) := by
  simp [closedLength?, hq, h]

/-- A literal ends where three quotes first come in a row behind the three that open it. -/
theorem length?_block {mark body rest : List Char} (hlength : mark.length ≤ 1)
    (hmark : ∀ c ∈ mark, isMark c = true) (hq : isQuote quote = true)
    (h : blockLength? quote (body ++ [quote, quote, quote] ++ rest) = some (body.length + 3)) :
    length? (block mark quote body ++ rest) = some (block mark quote body).length := by
  have htext : block mark quote body ++ rest =
      mark ++ quote :: quote :: quote :: (body ++ [quote, quote, quote] ++ rest) := by
    simp [block]
  have hlen : (block mark quote body).length = mark.length + (3 + (body.length + 3)) := by
    simp only [block, List.length_append, List.length_cons, List.length_nil]
    omega
  rw [htext, hlen, length?_marked hlength hmark hq, closedLength?_block hq h]
  rfl

theorem encloses_block {body rest : List Char} (hq : isQuote quote = true)
    (h : blockLength? quote (body ++ [quote, quote, quote] ++ rest) = some (body.length + 3)) :
    Encloses ([quote, quote, quote] ++ body ++ [quote, quote, quote]) body := by
  obtain ⟨found, htake, first⟩ := blockLength?_first h
  have hbody : body = found := by
    rw [List.take_append_of_le_length (by simp), List.take_of_length_le (by simp)] at htake
    exact List.append_cancel_right htake
  subst hbody
  exact .block hq first

theorem mark_cases {mark : List Char} (hm : mark ∈ [[], ['b'], ['B']]) :
    mark.length ≤ 1 ∧ (∀ c ∈ mark, isMark c = true) ∧ mark.any isRawMark = false := by
  simp only [List.mem_cons, List.not_mem_nil, or_false] at hm
  rcases hm with rfl | rfl | rfl <;> simp [isMark, isRawMark]

/-- What a quote opens on its line is not closed if no text in quotes begins there. -/
theorem lineLength?_eq_none_iff (hb : quote ≠ '\\') : lineLength? quote cs = none ↔
    ¬∃ body rest, Inline quote body ∧ cs = body ++ quote :: rest := by
  constructor
  · rintro hnone ⟨body, rest, inline, rfl⟩
    rw [lineLength?_of_inline hb inline] at hnone
    cases hnone
  · intro h
    cases hn : lineLength? quote cs with
    | none => rfl
    | some n =>
      obtain ⟨body, hbody, htake⟩ := lineLength?_inline hn
      refine absurd ⟨body, cs.drop n, hbody, ?_⟩ h
      rw [← List.singleton_append, ← List.append_assoc, ← htake, List.take_append_drop]

/-- A quote alone opens a literal on its line. -/
theorem closedLength?_alone (hq : isQuote quote = true) (h : cs.head? ≠ some quote) :
    closedLength? (quote :: cs) = (lineLength? quote cs).map (· + 1) := by
  have hopen : [quote, quote].isPrefixOf cs = false := by
    cases cs with
    | nil => rfl
    | cons c cs =>
      have hc : quote ≠ c := by simpa [eq_comm] using h
      simp [List.isPrefixOf, hc]
  simp [closedLength?, hq, hopen]

end Quotation

namespace Scanner

variable {s : Scanner} {text rest : List Char}

/-- A literal ahead is one token. -/
theorem readLexeme_literal (hs : s.rest = text ++ rest)
    (h : Quotation.length? (text ++ rest) = some text.length) :
    s.readLexeme = .ok ([⟨.string, String.ofList (Quotation.decode text),
      s.spanFrom s.offset (byteLength text)⟩], s.behind text rest s.brackets) := by
  have hnext := Lexeme.next?_of_length? h
  rw [← hs] at hnext
  simp only [readLexeme, hnext]
  rw [hs, List.take_left]
  exact congrArg Except.ok (emit_append hs ..)

/-- A literal at the start of a source is its first token. -/
theorem tokens_string (hshort : byteLength (text ++ rest) < 2 ^ 32)
    (h : Quotation.length? (text ++ rest) = some text.length) (file : String) :
    ∃ t : Token, t.placed =
        (.string, String.ofList (Quotation.decode text), 0, byteLength text) ∧
      tokens (text ++ rest) file =
        ((flush (text ++ rest) file).behind text rest []).run.map (t :: ·) := by
  obtain ⟨c, ds, htext, hc⟩ := Lexeme.exists_cons_of_length? h
  have hstart : tokens (text ++ rest) file = (flush (text ++ rest) file).run := by
    rw [htext]
    exact run_start ds hc file
  have hread : (flush (text ++ rest) file).step = _ :=
    (reading_of_within rfl).trans (readLexeme_literal rfl h)
  have hplaced := placed_spanFrom ((At.flush hshort file).behind rfl []).offset_lt
    (flush (text ++ rest) file) .string (String.ofList (Quotation.decode text))
  have hzero : (flush (text ++ rest) file).offset + byteLength text = byteLength text :=
    Nat.zero_add _
  rw [hzero] at hplaced
  refine ⟨_, hplaced, ?_⟩
  rw [hstart, run_step (rest_ne_nil_of_step hread), hread]
  rfl

/-- Of a literal that is all of its source there are three tokens. -/
theorem tokens_literal (hshort : byteLength text < 2 ^ 32)
    (h : Quotation.length? text = some text.length) (file : String) :
    ∃ ts, tokens text file = .ok ts ∧ ts.map Token.placed =
      [(.string, String.ofList (Quotation.decode text), 0, byteLength text),
        (.newline, "", byteLength text, byteLength text),
        (.endOfSource, "EOF", byteLength text, byteLength text)] := by
  rw [← List.append_nil text] at hshort
  have hread : Quotation.length? (text ++ []) = some text.length := by rwa [List.append_nil]
  obtain ⟨t, ht, htokens⟩ := tokens_string hshort hread file
  have hat := (At.flush hshort file).behind rfl []
  rw [run_nil rfl, List.append_nil] at htokens
  refine ⟨_, htokens, ?_⟩
  rw [List.append_nil] at hat
  rw [List.map_cons, ht, placed_finish hat rfl rfl rfl]

/-- A quote alone that no other one closes on its line stops the scanner. -/
theorem run_unclosed {quote : Char} (hq : Quotation.isQuote quote = true)
    (hs : s.rest = quote :: rest) (halone : rest.head? ≠ some quote)
    (hclose : ¬∃ body behind, Quotation.Inline quote body ∧ rest = body ++ quote :: behind) :
    s.run = .error ⟨.unterminatedString, s.position s.offset⟩ := by
  have hmark : Quotation.markLength (quote :: rest) = 0 := by
    simp [Quotation.markLength, Quotation.isMark_eq_false_of_isQuote hq]
  have hnone : Quotation.length? (quote :: rest) = none := by
    have hclosed := Quotation.closedLength?_alone hq halone
    rw [(Quotation.lineLength?_eq_none_iff (Quotation.ne_backslash_of_isQuote hq)).2 hclose]
      at hclosed
    rw [Quotation.length?, hmark, List.drop_zero, hclosed]
    rfl
  have hopens : Quotation.opens (quote :: rest) = true := by
    rw [Quotation.opens, hmark]
    exact hq
  have hbreak : quote ∉ breaks := fun hmem =>
    List.any_eq_false.1 Quotation.isQuote_breaks quote hmem hq
  rcases Lexeme.next?_of_opens hopens with ⟨n, hn⟩ | hn
  · have hsome := Lexeme.reads_of_next? hn
    rw [Lexeme.Reads, hnone] at hsome
    cases hsome
  · exact run_of_unread hs hbreak (.unterminated (hs ▸ hn))

end Scanner

open Quotation

variable {quote : Char} {mark body rest : List Char}

/-- Between three quotes the text up to where they come again is decoded. -/
theorem decode_block (hq : isQuote quote = true) (hm : mark ∈ [[], ['b'], ['B']])
    (h : blockLength? quote (body ++ [quote, quote, quote] ++ rest) = some (body.length + 3)) :
    decode (block mark quote body) = unescape body := by
  obtain ⟨hlength, hmark, hraw⟩ := mark_cases hm
  have hdecode := decode_append mark hlength hmark (encloses_block hq h)
  rwa [hraw, ← block] at hdecode

/-- An escaped text between three quotes is read back, unless it ends with the quote. -/
theorem tokens_escape (hq : isQuote quote = true) (hm : mark ∈ [[], ['b'], ['B']])
    (value : List Char) {n : Nat} (hn : n = byteLength (block mark quote (escape quote value)))
    (hshort : n < 2 ^ 32) (file : String) :
    if value.getLast? = some quote then
      ∃ p, tokens (block mark quote (escape quote value)) file =
        .error ⟨.unterminatedString, p⟩ ∧ p.offset = n - 1
    else
      ∃ ts, tokens (block mark quote (escape quote value)) file = .ok ts ∧
        ts.map Token.placed = [(.string, String.ofList value, 0, n), (.newline, "", n, n),
          (.endOfSource, "EOF", n, n)] := by
  have hb := ne_backslash_of_isQuote hq
  obtain ⟨hlength, hmark, -⟩ := mark_cases hm
  rw [hn] at hshort
  split
  · rename_i hlast
    obtain ⟨init, rfl⟩ := List.getLast?_eq_some_iff.1 hlast
    -- the quotes are found behind the last backslash, and the last of the four remains
    have hclose : blockLength? quote
        (escape quote init ++ ['\\'] ++ [quote, quote, quote] ++ [quote]) =
          some ((escape quote init ++ ['\\']).length + 3) := by
      rw [List.append_assoc, List.append_assoc, blockLength?_escape hb (by simp [Ne.symm hb])]
      simp [blockLength?, hb]
      omega
    have htext : block mark quote (escape quote (init ++ [quote])) =
        block mark quote (escape quote init ++ ['\\']) ++ [quote] := by
      simp [block, escape]
    have hsize : byteLength [quote] = 1 := by simp [utf8Size_of_isQuote hq]
    rw [htext] at hshort hn ⊢
    rw [byteLength_append, hsize] at hn
    obtain ⟨t, -, htokens⟩ :=
      Scanner.tokens_string hshort (length?_block hlength hmark hq hclose) file
    rw [Scanner.run_unclosed hq rfl (by simp) (by simp)] at htokens
    have hat := (Scanner.At.flush hshort file).behind rfl []
    refine ⟨_, htokens, ?_⟩
    rw [hat.offset_position, hn, Nat.add_sub_cancel]
    exact Nat.zero_add _
  · rename_i hlast
    have hclose : blockLength? quote (escape quote value ++ [quote, quote, quote] ++ [])
        = some ((escape quote value).length + 3) := by
      rw [List.append_nil, blockLength?_escape hb (by simp [hlast])]
      simp [blockLength?, Nat.add_comm]
    have hread := length?_block hlength hmark hq hclose
    rw [List.append_nil] at hread
    obtain ⟨ts, hts, hplaced⟩ := Scanner.tokens_literal hshort hread file
    rw [decode_block hq hm hclose, unescape_escape hq, ← hn] at hplaced
    exact ⟨ts, hts, hplaced⟩

/-- A backslash, a line end and a quote in the middle are read back. -/
theorem tokens_escape_lines :
    ∃ ts, tokens "b'''\\\\\n\\'s'''".toList "BUILD" = .ok ts ∧ ts.map Token.placed =
      [(.string, "\\\n's", 0, 13), (.newline, "", 13, 13), (.endOfSource, "EOF", 13, 13)] := by
  have hmark : ['b'] ∈ [[], ['b'], ['B']] := by decide
  have hquote : isQuote '\'' = true := rfl
  exact tokens_escape hquote hmark "\\\n's".toList rfl (by decide) "BUILD"

/-- A quote at the end is not read back, and the last of the closing quotes is left over. -/
theorem tokens_escape_quote :
    block [] '\x22' (escape '\x22' ['\x22']) = "\"\"\"\\\"\"\"\"".toList ∧
      tokens "\"\"\"\\\"\"\"\"".toList "BUILD" =
        .error ⟨.unterminatedString, .ofOffset 7 "BUILD"⟩ ∧
      ¬∃ ts, tokens "\"\"\"\\\"\"\"\"".toList "BUILD" = .ok ts ∧ ts.map Token.placed =
        [(.string, "\"", 0, 8), (.newline, "", 8, 8), (.endOfSource, "EOF", 8, 8)] := by
  have herror : tokens "\"\"\"\\\"\"\"\"".toList "BUILD" =
      .error ⟨.unterminatedString, .ofOffset 7 "BUILD"⟩ := by
    decide +kernel
  refine ⟨rfl, herror, ?_⟩
  rw [herror]
  simp

end BuildTyping
