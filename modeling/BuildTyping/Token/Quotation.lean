import BuildTyping.Number.Digit
import BuildTyping.Token.Numeral

/-!
# String literals

Where a quoted literal ends, and the text it stands for. One quote at each end keeps the literal
on its line; three quotes at each end let it run over several, up to the first three in a row.
-/

namespace BuildTyping.Quotation

def isQuote (c : Char) : Bool := c == '\x22' || c == '\''

/-- The letters that may stand before the opening quote. -/
def isMark (c : Char) : Bool := c == 'r' || c == 'R' || c == 'b' || c == 'B'

/-- The marks of a literal that keeps its backslashes. -/
def isRawMark (c : Char) : Bool := c == 'r' || c == 'R'

/-- The length up to and with the closing quote of a literal on one line. -/
def lineLength? (quote : Char) : List Char → Option Nat
  | [] => none
  | c :: cs =>
    if c = quote then some 1
    else if c = '\n' then none
    else if c = '\\' then
      match cs with
      | [] => none
      | d :: ds => if d = '\n' then none else (lineLength? quote ds).map (· + 2)
    else (lineLength? quote cs).map (· + 1)

/-- The length up to and with the first three quotes in a row. -/
def blockLength? (quote : Char) : List Char → Option Nat
  | [] => none
  | c :: cs =>
    if [quote, quote, quote].isPrefixOf (c :: cs) then some 3
    else (blockLength? quote cs).map (· + 1)

/-- Where three opening quotes are never closed, the first two of them are an empty literal. -/
def closedLength? : List Char → Option Nat
  | [] => none
  | quote :: cs =>
    if isQuote quote then
      let block := if [quote, quote].isPrefixOf cs then blockLength? quote (cs.drop 2) else none
      match block with
      | some n => some (3 + n)
      | none => (lineLength? quote cs).map (· + 1)
    else none

def markLength : List Char → Nat
  | c :: _ => if isMark c then 1 else 0
  | [] => 0

/-- The length of the closed literal at the start of the text. -/
def length? (cs : List Char) : Option Nat :=
  (closedLength? (cs.drop (markLength cs))).map (markLength cs + ·)

theorem lineLength?_bounds {quote : Char} {cs : List Char} {n : Nat}
    (h : lineLength? quote cs = some n) : 0 < n ∧ n ≤ cs.length := by
  fun_induction lineLength? quote cs generalizing n <;>
    simp_all [Option.map_eq_some_iff] <;> grind

theorem blockLength?_bounds {quote : Char} {cs : List Char} {n : Nat}
    (h : blockLength? quote cs = some n) : 0 < n ∧ n ≤ cs.length := by
  fun_induction blockLength? quote cs generalizing n with
  | case1 => simp at h
  | case2 c cs hp =>
    have := (List.isPrefixOf_iff_prefix.1 hp).length_le
    grind
  | case3 c cs hp ih =>
    obtain ⟨m, hm, rfl⟩ := Option.map_eq_some_iff.1 h
    have := ih hm
    simp only [List.length_cons]
    omega

theorem closedLength?_bounds {cs : List Char} {n : Nat} (h : closedLength? cs = some n) :
    0 < n ∧ n ≤ cs.length := by
  cases cs with
  | nil => simp [closedLength?] at h
  | cons quote cs =>
    simp only [closedLength?] at h
    split at h
    · split at h
      · rename_i block hb
        split at hb
        · rename_i hp
          have hle := (List.isPrefixOf_iff_prefix.1 hp).length_le
          have := blockLength?_bounds hb
          simp at hle this
          grind
        · simp at hb
      · obtain ⟨m, hm, rfl⟩ := Option.map_eq_some_iff.1 h
        have := lineLength?_bounds hm
        grind
    · simp at h

theorem length?_bounds {cs : List Char} {n : Nat} (h : length? cs = some n) :
    0 < n ∧ n ≤ cs.length := by
  obtain ⟨m, hm, rfl⟩ := Option.map_eq_some_iff.1 h
  have := closedLength?_bounds hm
  simp only [List.length_drop] at this
  omega

/-- Whether the text starts with a quote, marked or not. -/
def opens (cs : List Char) : Bool :=
  match cs.drop (markLength cs) with
  | c :: _ => isQuote c
  | [] => false

/-- The character with this code in hexadecimal digits. -/
def ofHex (digits : List Char) : Char := Char.ofNat ((readNatural? 16 digits).getD 0)

/-- Decodes the escapes. A backslash with no escape after it stands for itself. -/
def unescape : List Char → List Char
  | [] => []
  | '\\' :: 'x' :: a :: b :: cs =>
    if Numeral.isHexDigit a && Numeral.isHexDigit b then
      ofHex [a, b] :: unescape cs
    else if Numeral.isHexDigit a then ofHex [a] :: unescape (b :: cs)
    else '\\' :: 'x' :: unescape (a :: b :: cs)
  | ['\\', 'x', a] =>
    if Numeral.isHexDigit a then [ofHex [a]] else ['\\', 'x', a]
  | '\\' :: 'n' :: cs => '\n' :: unescape cs
  | '\\' :: 't' :: cs => '\t' :: unescape cs
  | '\\' :: 'r' :: cs => '\r' :: unescape cs
  | '\\' :: '0' :: cs => '\x00' :: unescape cs
  | '\\' :: '\\' :: cs => '\\' :: unescape cs
  | '\\' :: '\x22' :: cs => '\x22' :: unescape cs
  | '\\' :: '\'' :: cs => '\'' :: unescape cs
  | '\\' :: '\n' :: cs => unescape cs
  | '\\' :: c :: cs => '\\' :: c :: unescape cs
  | c :: cs => c :: unescape cs

/-- The text without the first `n` characters and the last `n`. -/
def strip (n : Nat) (cs : List Char) : List Char := (cs.drop n).take (cs.length - 2 * n)

/-- The text that a complete literal stands for. -/
def decode (text : List Char) : List Char :=
  let quoted := text.drop (markLength text)
  let inner := match quoted with
    | q :: r :: s :: _ => if q = r ∧ r = s then strip 3 quoted else strip 1 quoted
    | _ => strip 1 quoted
  if (text.take (markLength text)).any isRawMark then inner else unescape inner

end BuildTyping.Quotation
