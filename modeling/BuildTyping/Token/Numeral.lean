/-!
# The extent of a number

A number is read as far as one of its forms reaches: hexadecimal or octal digits after `0x` or
`0o`, or decimal digits with at most one point and at most one exponent.
-/

namespace BuildTyping.Numeral

def isHexDigit (c : Char) : Bool :=
  c.isDigit || ('a' ≤ c && c ≤ 'f') || ('A' ≤ c && c ≤ 'F')

def isOctalDigit (c : Char) : Bool := '0' ≤ c && c ≤ '7'

/-- How many characters at the start satisfy the test. -/
def countWhile (test : Char → Bool) (cs : List Char) : Nat := (cs.takeWhile test).length

theorem countWhile_le (test : Char → Bool) (cs : List Char) :
    countWhile test cs ≤ cs.length := by
  simpa [countWhile] using (List.takeWhile_prefix test).length_le

/-- The length of a zero, the mark of a radix and at least one digit, or 0. -/
def radixLength (mark : Char → Bool) (digit : Char → Bool) : List Char → Nat
  | '0' :: m :: cs => if mark m && 0 < countWhile digit cs then 2 + countWhile digit cs else 0
  | _ => 0

def signLength : List Char → Nat
  | '+' :: _ | '-' :: _ => 1
  | _ => 0

/-- The length of an exponent with at least one digit, or 0. -/
def exponentLength : List Char → Nat
  | [] => 0
  | e :: cs =>
    let digits := countWhile Char.isDigit (cs.drop (signLength cs))
    if (e = 'e' ∨ e = 'E') ∧ 0 < digits then 1 + signLength cs + digits else 0

/-- The length of a decimal number, or 0. -/
def decimalLength (cs : List Char) : Nat :=
  let whole := countWhile Char.isDigit cs
  match cs.drop whole with
  | '.' :: rest =>
    let fraction := countWhile Char.isDigit rest
    if whole = 0 ∧ fraction = 0 then 0
    else whole + 1 + fraction + exponentLength (rest.drop fraction)
  | rest => if whole = 0 then 0 else whole + exponentLength rest

def isHexMark (c : Char) : Bool := c == 'x' || c == 'X'
def isOctalMark (c : Char) : Bool := c == 'o' || c == 'O'

/-- The length of the number at the start of the text, or 0. -/
def length (cs : List Char) : Nat :=
  let hex := radixLength isHexMark isHexDigit cs
  let octal := radixLength isOctalMark isOctalDigit cs
  if 0 < hex then hex else if 0 < octal then octal else decimalLength cs

theorem radixLength_le (mark digit : Char → Bool) (cs : List Char) :
    radixLength mark digit cs ≤ cs.length := by
  unfold radixLength
  split
  · rename_i m cs
    have := countWhile_le digit cs
    simp only [List.length_cons]
    split <;> omega
  · simp

theorem exponentLength_le (cs : List Char) : exponentLength cs ≤ cs.length := by
  cases cs with
  | nil => simp [exponentLength]
  | cons e cs =>
    have := countWhile_le Char.isDigit (cs.drop (signLength cs))
    simp only [List.length_drop] at this
    simp only [exponentLength, List.length_cons]
    split <;> omega

theorem decimalLength_le (cs : List Char) : decimalLength cs ≤ cs.length := by
  have hw := countWhile_le Char.isDigit cs
  have hd : (cs.drop (countWhile Char.isDigit cs)).length
      = cs.length - countWhile Char.isDigit cs := List.length_drop
  simp only [decimalLength]
  split
  · rename_i rest heq
    have hf := countWhile_le Char.isDigit rest
    have he := exponentLength_le (rest.drop (countWhile Char.isDigit rest))
    simp only [heq, List.length_cons, List.length_drop] at hd he
    split <;> omega
  · have he := exponentLength_le (cs.drop (countWhile Char.isDigit cs))
    simp only [List.length_drop] at he
    split <;> omega

theorem length_le (cs : List Char) : length cs ≤ cs.length := by
  have := radixLength_le isHexMark isHexDigit cs
  have := radixLength_le isOctalMark isOctalDigit cs
  have := decimalLength_le cs
  simp only [length]
  split
  · assumption
  · split <;> assumption

/-- Whether a number is written in a radix of its own. -/
def hasRadix : List Char → Bool
  | '0' :: m :: _ => isHexMark m || isOctalMark m
  | _ => false

/-- Whether a number with this text is a floating-point number and no integer. -/
def isFloat (text : List Char) : Bool :=
  !hasRadix text && text.any fun c => c == '.' || c == 'e' || c == 'E'

end BuildTyping.Numeral
