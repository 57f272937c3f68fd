import BuildTyping.Proofs.Grammar.StmtPoints
import BuildTyping.Proofs.Text.Place
import BuildTyping.Proofs.Token.Refusal
import BuildTyping.Proofs.Token.Written
import Mathlib.Data.Nat.Digits.Defs

/-!
# The location of a fault

A fault of a source lies at the start of a token, or where the source is refused before there are
tokens. Either is a boundary of the source, so it has a place. Its line is shown unless the arrow
under it is too wide for the formatter.
-/

namespace BuildTyping

def isIndent (c : Char) : Bool := c = ' ' || c = '\t'

/-- What is taken from the front of a text ends within its first part, or takes the whole of it. -/
theorem takeWhile_append_cases {α : Type} (p : α → Bool) (as bs : List α) :
    (as.dropWhile p = [] ∧ (as ++ bs).takeWhile p = as ++ bs.takeWhile p) ∨
      (as ++ bs).takeWhile p = as.takeWhile p ∧ (as ++ bs).dropWhile p = as.dropWhile p ++ bs := by
  rw [List.dropWhile_append]
  by_cases h : as.dropWhile p = []
  · exact .inl ⟨h, List.takeWhile_append_of_pos (List.dropWhile_eq_nil_iff.1 h)⟩
  · refine .inr ⟨?_, by simp [h]⟩
    rw [List.takeWhile_append, if_neg]
    intro hlength
    have hsplit := congrArg List.length (List.takeWhile_append_dropWhile (p := p) (l := as))
    rw [List.length_append, hlength] at hsplit
    exact h (List.length_eq_zero_iff.1 (by omega))

/-- The column of a boundary in a line without its indentation, and how many bytes come before it.
A boundary within the indentation comes to the front of the line. -/
theorem indented_column (as bs : List Char) :
    as.length - ((as ++ bs).takeWhile isIndent).length = (as.dropWhile isIndent).length ∧
    byteLength as - byteLength ((as ++ bs).takeWhile isIndent) =
      byteLength (as.dropWhile isIndent) := by
  rcases takeWhile_append_cases isIndent as bs with ⟨hnil, htake⟩ | ⟨htake, -⟩
  · rw [htake, hnil, List.length_append, byteLength_append]
    exact ⟨Nat.sub_eq_zero_of_le (Nat.le_add_right _ _),
      Nat.sub_eq_zero_of_le (Nat.le_add_right _ _)⟩
  · have hsplit : as.takeWhile isIndent ++ as.dropWhile isIndent = as :=
      List.takeWhile_append_dropWhile
    have hlength := congrArg List.length hsplit
    have hbytes := congrArg byteLength hsplit
    rw [List.length_append] at hlength
    rw [byteLength_append] at hbytes
    rw [htake]
    omega

/-- The text of a line up to a boundary, without the indentation of the line. -/
def lead (before : List Char) : List Char := (lastLine before).dropWhile isIndent

/-- A text of one character behind a given number of fill characters. -/
theorem pad?_of_lt {n : Nat} {text : String} (h : n + 1 < 2 ^ 16) (fill : Char)
    (htext : text.length = 1) :
    pad? fill (n + 1) text = some (String.ofList (List.replicate n fill) ++ text) := by
  have hwidth : n + 1 < UInt16.size := h
  rw [pad?, if_pos hwidth, htext, Nat.add_sub_cancel]

theorem pad?_of_le {width : Nat} (h : 2 ^ 16 ≤ width) (fill : Char) (text : String) :
    pad? fill width text = none :=
  if_neg (Nat.not_lt.2 h)

/-- The numbers of the lines of a source below 4 GiB have ten digits at most. -/
theorem length_number_le {before : List Char} (h : byteLength before < 2 ^ 32) :
    (toString (1 + before.count '\n')).length ≤ 10 := by
  have hcount := List.count_le_length (a := '\n') (l := before)
  have hlength := length_le_byteLength before
  exact Nat.repr_length (1 + before.count '\n') 10 (by omega) (by omega)

namespace Fault

variable {fault : Fault} {before : List Char}

/-- The excerpt of a line with a number that the formatter takes. -/
theorem excerpt?_eq {number : Nat} (line : List Char) (column : Nat)
    (h : (toString number).length + 2 < 2 ^ 16) :
    let margin := String.ofList (List.replicate ((toString number).length + 1) ' ') ++ "|"
    let text := toString number ++ " | " ++ String.ofList (trimEnd (line.dropWhile isIndent))
    excerpt? ⟨number, line, column⟩ =
      (pad? '-' (column - byteLength (line.takeWhile isIndent) + 1) "^").map
        fun arrow => [margin, text, margin ++ " " ++ arrow] := by
  intro margin text
  rw [excerpt?, pad?_of_lt h ' ' rfl, Option.map_eq_bind]
  simp only [text, ← Numeral.drop_countWhile]
  rfl

/-- At a boundary the line is shown without the blanks at its ends, and under it an arrow with a
dash for each byte of the lead, or nothing is shown where these are too many. -/
theorem render?_append (h : byteLength before = fault.offset) (after : List Char) :
    let number := toString (1 + before.count '\n')
    let margin := String.ofList (List.replicate (number.length + 1) ' ') ++ "|"
    let text := String.ofList (trimEnd ((lastLine before ++ firstLine after).dropWhile isIndent))
    let dashes := String.ofList (List.replicate (byteLength (lead before)) '-')
    (byteLength (lead before) + 1 < 2 ^ 16 → fault.render? (before ++ after) =
      some (String.join ([fault.headline, "-> " ++ fault.file, margin,
        number ++ " | " ++ text, margin ++ " " ++ (dashes ++ "^")].map (· ++ "\n")))) ∧
    (2 ^ 16 ≤ byteLength (lead before) + 1 → fault.render? (before ++ after) = none) := by
  intro number margin text dashes
  have hplace : place? (before ++ after) fault.offset = _ := h ▸ place?_append before after
  obtain ⟨-, hcolumn⟩ := indented_column (lastLine before) (firstLine after)
  have hlt : byteLength before < 2 ^ 32 := h ▸ fault.position.offset_lt
  have hnumber : number.length + 2 < 2 ^ 16 :=
    Nat.lt_of_le_of_lt (Nat.add_le_add_right (length_number_le hlt) 2) (by decide)
  rw [render?, hplace]
  simp only [excerpt?_eq _ _ hnumber, hcolumn]
  constructor
  · intro hwidth
    rw [← lead, pad?_of_lt hwidth '-' rfl]
    rfl
  · intro hwidth
    rw [← lead, pad?_of_le hwidth]
    rfl

end Fault

/-- A character that begins no lexeme is refused behind a word, however long the word is. -/
theorem tokens_behind_word {c d : Char} {cs : List Char} (hc : Lexeme.isWordStart c = true)
    (hcs : ∀ e ∈ cs, Lexeme.isWordRest e = true) (hword : Lexeme.isWordRest d = false)
    (hbegins : Lexeme.begins d = false) (hd : d ∉ breaks) (file : String) :
    tokens (c :: (cs ++ [d])) file =
      .error ⟨.unrecognisedToken (String.ofList [d]), .ofOffset (byteLength (c :: cs)) file⟩ := by
  let s := Scanner.flush (c :: (cs ++ [d])) file
  let behind := s.behind (c :: cs) [d] []
  have hquote : Quotation.isQuote d = false := by
    simp only [Lexeme.begins, Bool.or_eq_false_iff] at hbegins
    simp [hbegins]
  have hnext : Lexeme.next? s.rest = some (.word, (c :: cs).length) :=
    Lexeme.next?_word_append hc hcs (by simpa using hword) (by simpa using hquote)
  have hrest : s.rest = (c :: cs) ++ [d] := rfl
  obtain ⟨ts, hread⟩ : ∃ ts, s.readLexeme = .ok (ts, behind) := by
    simp only [Scanner.readLexeme, hnext]
    exact ⟨_, congrArg Except.ok (Scanner.emit_append hrest _ _ [])⟩
  have hstep : s.step = .ok (ts, behind) := (Scanner.reading_of_within rfl).trans hread
  have hunread : Unread behind.rest behind.brackets (.unrecognisedToken (String.ofList [d])) := by
    obtain ⟨hgap, hend⟩ := Lexeme.lengths_of_notMem_breaks [] hd
    refine .unrecognised rfl ?_
    show Lexeme.next? [d] = none
    rw [Lexeme.next?_of_begins [] hbegins, hgap, hend]
    rfl
  rw [tokens, Scanner.run_start _ (Lexeme.notMem_breaks_of_isWordStart hc),
    (Scanner.Reaches.single hstep).run_error_iff, Scanner.run_of_unread rfl hd hunread]
  simp [behind, s, Scanner.behind, Scanner.flush, Scanner.position]

namespace Program

variable {source : List Char} {file : String} {fault : Fault}

theorem pointsInto_of_ofTokens {ts : List Token} {t : Token} {r : Reader}
    (ht : t.kind = .endOfSource) (h : ofTokens (ts ++ [t]) file = .error fault r) :
    fault.PointsInto (ts ++ [t]) := by
  have hpoints := program_points (T := ts ++ [t]) Grammar.standard_solid file
    (Reader.start (ts ++ [t]) file)
    ⟨Reader.ended_start _ file, by rw [Reader.ahead_start ht]; simp⟩
  rw [ofTokens] at h
  rwa [h] at hpoints

/-- A token starts at a boundary of its source, so a fault that points at one lies there. -/
theorem boundary_of_ofTokens {ts : List Token} {r : Reader} (hshort : byteLength source < 2 ^ 32)
    (hts : tokens source file = .ok ts) (h : ofTokens ts file = .error fault r) :
    fault.file = file ∧ isBoundary fault.offset source = true ∧
      ∃ t ∈ ts, t.span.start = fault.position := by
  obtain ⟨htiles, us, rfl, -⟩ := tokens_tile hshort hts
  obtain ⟨t, ht, hstart⟩ := pointsInto_of_ofTokens rfl h
  have hfile : t.InFile file := Scanner.inFile_run hts t ht
  refine ⟨?_, ?_, t, ht, hstart⟩
  · rw [Fault.file, ← hstart]
    exact hfile.1
  · rw [Fault.offset, ← hstart]
    exact (htiles.fits_of_mem ht).start

/-- A fault of a source is one of its tokens or one of the program read from them. -/
theorem ofSource_error_cases (h : ofSource source file = .error fault) :
    tokens source file = .error fault ∨
      ∃ ts r, tokens source file = .ok ts ∧ ofTokens ts file = .error fault r := by
  cases hts : tokens source file with
  | error other =>
    obtain rfl : other = fault := by simpa [ofSource, hts] using h
    exact .inl rfl
  | ok ts =>
    cases hp : ofTokens ts file with
    | ok p r => simp [ofSource, hts, hp] at h
    | error other r =>
      obtain rfl : other = fault := by simpa [ofSource, hts, hp] using h
      exact .inr ⟨ts, r, rfl, hp⟩

/-- A fault lies at a boundary of its file, where a token starts or the source is refused. -/
theorem origin_of_ofSource (hshort : byteLength source < 2 ^ 32)
    (h : ofSource source file = .error fault) :
    fault.file = file ∧ isBoundary fault.offset source = true ∧
      ((∃ ts, tokens source file = .ok ts ∧ ∃ t ∈ ts, t.span.start = fault.position) ∨
        (tokens source file = .error fault ∧ ∃ s,
          Relation.ReflTransGen Scanner.Steps (.start source file) s ∧ s.At source ∧
          s.Refuses fault ∧ fault.offset < byteLength source)) := by
  rcases ofSource_error_cases h with hts | ⟨ts, r, hts, hp⟩
  · obtain ⟨s, hsteps, hat, hs⟩ := tokens_error hshort hts
    obtain ⟨hboundary, hlt⟩ := hs.boundary hat
    refine ⟨?_, hboundary, .inr ⟨hts, s, hsteps, hat, hs, hlt⟩⟩
    rw [hs.file, Scanner.file_of_steps hsteps]
    rfl
  · obtain ⟨hfile, hboundary, hstarts⟩ := boundary_of_ofTokens hshort hts hp
    exact ⟨hfile, hboundary, .inl ⟨ts, hts, hstarts⟩⟩

/-- Every fault of a source with less than 4 GiB lies in its file at a boundary of the source. It
lies at the start of a token, or at the first character that cannot be read, or behind the
indentation of a line that fits no open block. The number of its line and the line itself are shown
exactly if the arrow under the line is less than 65536 characters wide, and otherwise nothing is. -/
theorem ofSource_error (hshort : byteLength source < 2 ^ 32)
    (h : ofSource source file = .error fault) :
    fault.file = file ∧ fault.offset ≤ byteLength source ∧
    isBoundary fault.offset source = true ∧
    ((∃ ts, tokens source file = .ok ts ∧ ∃ t ∈ ts, t.span.start = fault.position) ∨
      (tokens source file = .error fault ∧ ∃ s,
        Relation.ReflTransGen Scanner.Steps (.start source file) s ∧ s.At source ∧
        s.Refuses fault ∧ fault.offset < byteLength source)) ∧
    ∃ before after, source = before ++ after ∧ byteLength before = fault.offset ∧
      place? source fault.offset = some ⟨1 + before.count '\n',
        lastLine before ++ firstLine after, byteLength (lastLine before)⟩ ∧
      (byteLength (lead before) + 1 < 2 ^ 16 → ∃ margin arrow, fault.render? source =
        some (String.join ([fault.headline, "-> " ++ file, margin,
          toString (1 + before.count '\n') ++ " | " ++ String.ofList
            (trimEnd ((lastLine before ++ firstLine after).dropWhile isIndent)), arrow].map
          (· ++ "\n")))) ∧
      (2 ^ 16 ≤ byteLength (lead before) + 1 → fault.render? source = none) := by
  obtain ⟨hfile, hboundary, horigin⟩ := origin_of_ofSource hshort h
  obtain ⟨before, after, rfl, hbefore⟩ := isBoundary_iff.1 hboundary
  obtain ⟨hshown, hrefused⟩ := Fault.render?_append hbefore after
  refine ⟨hfile, ?_, hboundary, horigin, before, after, rfl, hbefore, ?_, ?_, hrefused⟩
  · rw [← hbefore, byteLength_append]
    exact Nat.le_add_right _ _
  · rw [← hbefore, place?_append]
  · intro hwidth
    rw [hfile] at hshown
    exact ⟨_, _, hshown hwidth⟩

/-- The second operand of `+` is missing on an indented line. -/
theorem ofSource_error_operand :
    let source := "if x:\n\ty = 1 +\n".toList
    let fault : Fault :=
      ⟨.unmetExpectation "newline" "expected an expression", .ofOffset 14 "BUILD"⟩
    byteLength source < 2 ^ 32 ∧ ofSource source "BUILD" = .error fault ∧
    (∃ before after, source = before ++ after ∧ byteLength before = 14 ∧
      byteLength (lead before) + 1 < 2 ^ 16 ∧
      place? source 14 = some ⟨1 + before.count '\n', lastLine before ++ firstLine after,
        byteLength (lastLine before)⟩) ∧
    fault.render? source = some
      ("Error: UnexpectedTokenDetailed (Unexpected token: `newline`, expected an expression)\n" ++
        "-> BUILD\n  |\n2 | y = 1 +\n  | -------^\n") := by
  intro source fault
  have hshort : byteLength source < 2 ^ 32 := by decide +kernel
  have hfault : (match ofSource source "BUILD" with
      | .error fault => some fault
      | .ok _ => none) = some fault := by decide +kernel
  have herror : ofSource source "BUILD" = .error fault := by
    cases hrun : ofSource source "BUILD" with
    | error other => simpa [hrun] using hfault
    | ok p => simp [hrun] at hfault
  have hoffset : fault.offset = 14 := Position.offset_ofOffset (by decide) "BUILD"
  have hshown : fault.render? source ≠ none := by decide +kernel
  obtain ⟨-, -, -, -, before, after, hsource, hbefore, hplace, -, hrefused⟩ :=
    ofSource_error hshort herror
  have hwidth : byteLength (lead before) + 1 < 2 ^ 16 := by
    by_contra hwide
    exact hshown (hrefused (Nat.not_lt.1 hwide))
  rw [hoffset] at hbefore hplace
  exact ⟨hshort, herror, ⟨before, after, hsource, hbefore, hwidth, hplace⟩,
    by decide +kernel⟩

/-- Behind a word of 65535 letters the arrow is too wide. -/
theorem location_shown_not : ¬∀ (source : List Char) (file : String) (fault : Fault),
    byteLength source < 2 ^ 32 → ofSource source file = .error fault →
    ∃ text, fault.render? source = some text := by
  intro h
  obtain ⟨n, hn⟩ : ∃ n, n = 65534 := ⟨_, rfl⟩
  let word := 'a' :: List.replicate n 'a'
  have hword : word = List.replicate (n + 1) 'a' := rfl
  have hletter : ∀ c ∈ word, c = 'a' := fun c hc => List.eq_of_mem_replicate (hword ▸ hc)
  have hlength : byteLength word = n + 1 := by
    rw [byteLength_eq_length_iff.2 fun c hc => hletter c hc ▸ rfl, hword, List.length_replicate]
  have hlead : lead word = word := by
    rw [lead, lastLine_of_notMem (by simp [hword]), hword, List.dropWhile_replicate]
    rfl
  let fault : Fault := ⟨.unrecognisedToken "$", .ofOffset (byteLength word) "BUILD"⟩
  have hfault : tokens (word ++ ['$']) "BUILD" = .error fault := by
    refine tokens_behind_word (by decide +kernel) (fun c hc => ?_) (by decide +kernel)
      (by decide +kernel) (by decide) "BUILD"
    rw [hletter c (List.mem_cons_of_mem 'a' hc)]
    decide +kernel
  have hshort : byteLength (word ++ ['$']) < 2 ^ 32 := by
    rw [byteLength_append, hlength, hn]
    decide
  obtain ⟨text, htext⟩ := h (word ++ ['$']) "BUILD" fault hshort (by rw [ofSource, hfault])
  have hoffset : byteLength word = fault.offset := by
    refine (Position.offset_ofOffset ?_ "BUILD").symm
    rw [hlength, hn]
    decide
  rw [(Fault.render?_append hoffset ['$']).2 (by rw [hlead, hlength, hn]; decide)] at htext
  cases htext

end Program

end BuildTyping
