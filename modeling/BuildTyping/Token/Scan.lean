import BuildTyping.Fault
import BuildTyping.Token.Basic
import BuildTyping.Token.Lexeme

/-!
# The tokens of a source

A scanner reads one lexeme at a time. At the start of a line outside brackets it first compares
the indentation with the open blocks and emits a token for each block that begins or ends.
-/

namespace BuildTyping

structure Scanner where
  file : String
  offset : Nat
  rest : List Char
  /-- The widths of the open blocks, the innermost first. -/
  blocks : List Nat
  /-- The open brackets, the innermost first. -/
  brackets : List Bracket
  /-- Whether the indentation of the line is still to be compared. -/
  atLineStart : Bool
  /-- Whether a token has been emitted since the last newline token. -/
  lineOpen : Bool
  deriving DecidableEq, Repr

namespace Scanner

def start (source : List Char) (file : String) : Scanner :=
  ⟨file, 0, source, [], [], true, false⟩

def position (s : Scanner) (offset : Nat) : Position := .ofOffset offset s.file

/-- The span of `length` bytes from an offset on. -/
def spanFrom (s : Scanner) (offset length : Nat) : Span :=
  ⟨s.position offset, s.position (offset + length)⟩

/-- A layout token for `length` bytes from an offset on. -/
def layout (s : Scanner) (kind : TokenKind) (offset length : Nat) : Token :=
  .layout kind (s.spanFrom offset length)

/-- The spaces and tabs at the start of the text. -/
def indentation (cs : List Char) : List Char := cs.takeWhile fun c => c == ' ' || c == '\t'

/-- The column after the indentation. A tab goes to the next multiple of eight. -/
def columnAfter (indentation : List Char) : Nat :=
  indentation.foldl (fun column c => if c = '\t' then (column / 8 + 1) * 8 else column + 1) 0

/-- Whether nothing but a comment stands on the rest of the line. -/
def isBlankLine : List Char → Bool
  | [] => true
  | c :: _ => c == '\n' || c == '\r' || c == '#'

/-- Begins or ends blocks as the indentation of the line asks, and leaves blank lines alone. -/
def openLine (s : Scanner) : Except Fault (List Token × Scanner) :=
  let indent := indentation s.rest
  let width := columnAfter indent
  let first := s.offset + indent.length
  let outer := s.blocks.dropWhile (width < ·)
  let opened := { s with atLineStart := false }
  if isBlankLine (s.rest.drop indent.length) then .ok ([], s)
  else if s.blocks.headD 0 < width then
    .ok ([s.layout .indent s.offset indent.length],
      { opened with blocks := width :: s.blocks, lineOpen := true })
  else if outer.headD 0 = width then
    let ended := List.replicate (s.blocks.length - outer.length) (s.layout .dedent first 0)
    .ok (ended, { opened with blocks := outer, lineOpen := s.lineOpen || !ended.isEmpty })
  else .error ⟨.inconsistentIndentation, s.position first⟩

/-- The scanner after the next `n` characters. -/
def skip (s : Scanner) (n : Nat) : Scanner :=
  { s with offset := s.offset + byteLength (s.rest.take n), rest := s.rest.drop n }

/-- A token for the next `n` characters. -/
def emit (s : Scanner) (kind : TokenKind) (value : List Char) (n : Nat) :
    List Token × Scanner :=
  let span := s.spanFrom s.offset (byteLength (s.rest.take n))
  ([⟨kind, String.ofList value, span⟩], { s.skip n with lineOpen := true })

/-- Outside brackets the end of a line with tokens is a token. -/
def endLine (s : Scanner) (n : Nat) : List Token × Scanner :=
  let after := s.skip n
  if s.brackets.isEmpty then
    (if s.lineOpen then [s.layout .newline s.offset (byteLength (s.rest.take n))] else [],
      { after with atLineStart := true, lineOpen := false })
  else ([], after)

/-- Reads the next lexeme. -/
def readLexeme (s : Scanner) : Except Fault (List Token × Scanner) :=
  match Lexeme.next? s.rest with
  | none => .error ⟨.unrecognisedToken (String.ofList (s.rest.take 1)), s.position s.offset⟩
  | some (lexeme, n) =>
    let text := s.rest.take n
    match lexeme with
    | .gap => .ok ([], s.skip n)
    | .lineEnd => .ok (s.endLine n)
    | .string => .ok (s.emit .string (Quotation.decode text) n)
    | .unterminated => .error ⟨.unterminatedString, s.position s.offset⟩
    | .number => .ok (s.emit (if Numeral.isFloat text then .float else .int) text n)
    | .word =>
      let kind := match Keyword.ofText? (String.ofList text) with
        | some word => .keyword word
        | none => .identifier
      .ok (s.emit kind text n)
    | .opening b =>
      .ok ({ s with brackets := b :: s.brackets }.emit (.opening b) text n)
    | .closing b =>
      if s.brackets.head? = some b then
        .ok ({ s with brackets := s.brackets.tail }.emit (.closing b) text n)
      else .error ⟨.unbalancedBracket (String.ofList text), s.position s.offset⟩
    | .sign sign => .ok (s.emit (.sign sign) text n)

def step (s : Scanner) : Except Fault (List Token × Scanner) :=
  if s.atLineStart && s.brackets.isEmpty then do
    let (layout, s) ← s.openLine
    let (tokens, s) ← s.readLexeme
    return (layout ++ tokens, s)
  else s.readLexeme

/-- The tokens at the end of the source: the last line and all blocks end. -/
def finish (s : Scanner) : List Token :=
  (if s.lineOpen then [s.layout .newline s.offset 0] else []) ++
    List.replicate s.blocks.length (s.layout .dedent s.offset 0) ++
      [.endAt (s.position s.offset)]

@[simp] theorem kind_layout (s : Scanner) (kind : TokenKind) (offset length : Nat) :
    (s.layout kind offset length).kind = kind := rfl

@[simp] theorem rest_skip (s : Scanner) (n : Nat) : (s.skip n).rest = s.rest.drop n := rfl

theorem rest_openLine {s s' : Scanner} {tokens : List Token}
    (h : s.openLine = .ok (tokens, s')) : s'.rest = s.rest := by
  simp only [openLine] at h
  split at h
  · simp_all
  · split at h
    · simp only [Except.ok.injEq, Prod.mk.injEq] at h
      rw [← h.2]
    · split at h
      · simp only [Except.ok.injEq, Prod.mk.injEq] at h
        rw [← h.2]
      · simp at h

/-- A lexeme leaves a shorter rest. -/
theorem length_readLexeme {s s' : Scanner} {tokens : List Token}
    (h : s.readLexeme = .ok (tokens, s')) : s'.rest.length < s.rest.length := by
  simp only [readLexeme] at h
  split at h
  · simp at h
  · rename_i lexeme n hn
    have hb := Lexeme.next?_bounds hn
    have key : s'.rest = s.rest.drop n → s'.rest.length < s.rest.length := by
      intro he
      simp only [he, List.length_drop]
      omega
    refine key ?_
    split at h <;> try split at h
    all_goals simp_all [emit, endLine, skip, Prod.ext_iff]
    all_goals (try split at h) <;> grind

theorem length_step {s s' : Scanner} {tokens : List Token}
    (h : s.step = .ok (tokens, s')) : s'.rest.length < s.rest.length := by
  simp only [step] at h
  split at h
  · cases ho : s.openLine with
    | error fault => simp [ho, bind, Except.bind] at h
    | ok opened =>
      cases hr : opened.2.readLexeme with
      | error fault => simp [ho, hr, bind, Except.bind] at h
      | ok after =>
        simp only [ho, hr, bind, Except.bind, pure, Except.pure, Except.ok.injEq,
          Prod.mk.injEq] at h
        rw [← h.2, ← rest_openLine ho]
        exact length_readLexeme hr
  · exact length_readLexeme h

/-- All tokens from here to the end of the source. -/
def run (s : Scanner) : Except Fault (List Token) :=
  if s.rest = [] then .ok s.finish
  else match _h : s.step with
    | .error fault => .error fault
    | .ok (tokens, s') => s'.run.map (tokens ++ ·)
  termination_by s.rest.length
  decreasing_by exact length_step _h

end Scanner

/-- The tokens of a source, the last of which marks its end. -/
def tokens (source : List Char) (file : String) : Except Fault (List Token) :=
  (Scanner.start source file).run

end BuildTyping
