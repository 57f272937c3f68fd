import BuildTyping.Number.Digit

/-!
# Integers of 64 bits

An integer is written in decimal, in hexadecimal after `0x` or in octal after `0o`, in either
case, and its digits may have a sign. Values that need more than 64 bits are refused.
-/

namespace BuildTyping.Integer

def IsWord (n : Int) : Prop := -(Nat.pow 2 63 : Int) ≤ n ∧ n < (Nat.pow 2 63 : Int)

instance (n : Int) : Decidable (IsWord n) := inferInstanceAs (Decidable (_ ∧ _))

/-- Digits with an optional sign. -/
def readSigned? (radix : Nat) : List Char → Option Int
  | '-' :: cs => (readNatural? radix cs).map fun n => -(n : Int)
  | '+' :: cs => (readNatural? radix cs).map Int.ofNat
  | cs => (readNatural? radix cs).map Int.ofNat

def readAny? : List Char → Option Int
  | '0' :: m :: cs =>
    if m = 'x' ∨ m = 'X' then readSigned? 16 cs
    else if m = 'o' ∨ m = 'O' then readSigned? 8 cs
    else readSigned? 10 ('0' :: m :: cs)
  | cs => readSigned? 10 cs

/-- The integer that the text stands for, if it is one of 64 bits. -/
def read? (cs : List Char) : Option Int := (readAny? cs).filter fun n => decide (IsWord n)

end BuildTyping.Integer
