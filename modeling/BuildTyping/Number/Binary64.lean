import BuildTyping.Number.Digit

/-!
# Floating-point numbers of 64 bits

A number is read from decimal text as the nearest representable one, computed exactly on natural
numbers. Of two equally near ones the one with the even significand is taken.
-/

namespace BuildTyping

structure Binary64 where
  bits : UInt64
  deriving DecidableEq, Repr

namespace Binary64

def infinityBits : Nat := 0x7FF * Nat.pow 2 52

def notANumber : Binary64 := ⟨0x7FF8000000000000⟩

/-- The quotient rounded to the nearest integer, a half to the even one. -/
def roundDiv (num den : Nat) : Nat :=
  let q := num / den
  let twice := 2 * (num % den)
  if twice < den then q else if den < twice then q + 1 else q + q % 2

/-- The exponent of the greatest power of two that is at most the quotient. -/
def floorLog2 (num den : Nat) : Int :=
  let estimate := (Nat.log2 num : Int) - Nat.log2 den
  let reached := if 0 ≤ estimate then den * Nat.pow 2 estimate.toNat ≤ num
    else den ≤ num * Nat.pow 2 (-estimate).toNat
  if reached then estimate else estimate - 1

/-- The bits of the number nearest to a positive quotient. The unit in the last place is never
below the least subnormal number, and a significand that rounds up carries into the exponent. -/
def bitsOfQuotient (num den : Nat) : Nat :=
  let unit := max (floorLog2 num den - 52) (-1074)
  let significand :=
    if 0 ≤ unit then roundDiv num (den * Nat.pow 2 unit.toNat)
    else roundDiv (num * Nat.pow 2 (-unit).toNat) den
  min infinityBits ((unit + 1074).toNat * Nat.pow 2 52 + significand)

/-- The bits of the number nearest to a natural number times a power of ten. Far outside the
range the size of the number decides without computing the power. -/
def bitsOfDecimal (coefficient : Nat) (exponent : Int) : Nat :=
  let size := (Nat.toDigits 10 coefficient).length + exponent
  if coefficient = 0 then 0
  else if 310 < size then infinityBits
  else if size < -330 then 0
  else if 0 ≤ exponent then bitsOfQuotient (coefficient * Nat.pow 10 exponent.toNat) 1
  else bitsOfQuotient coefficient (Nat.pow 10 (-exponent).toNat)

def ofBits (negative : Bool) (bits : Nat) : Binary64 :=
  ⟨UInt64.ofNat (bits + if negative then Nat.pow 2 63 else 0)⟩

/-- The value of an optionally signed run of digits. -/
def readExponent? : List Char → Option Int
  | '-' :: cs => (readNatural? 10 cs).map fun n => -(n : Int)
  | '+' :: cs => (readNatural? 10 cs).map Int.ofNat
  | cs => (readNatural? 10 cs).map Int.ofNat

/-- Digits with at most one point and at most one exponent; the coefficient and its exponent. -/
def readDecimal? (cs : List Char) : Option (Nat × Int) :=
  let isMark (c : Char) := c == 'e' || c == 'E'
  let (mantissa, tail) := cs.span fun c => !isMark c
  let (whole, fraction) := mantissa.span (· != '.')
  let digits := whole ++ fraction.drop 1
  let exponent? := match tail with
    | [] => some 0
    | _ :: power => readExponent? power
  match readNatural? 10 digits, exponent? with
  | some coefficient, some exponent => some (coefficient, exponent - (fraction.drop 1).length)
  | _, _ => none

def readUnsigned? (negative : Bool) (cs : List Char) : Option Binary64 :=
  let lowered := cs.map Char.toLower
  if lowered = "nan".toList then
    some (ofBits negative notANumber.bits.toNat)
  else if lowered = "inf".toList ∨ lowered = "infinity".toList then
    some (ofBits negative infinityBits)
  else (readDecimal? cs).map fun (coefficient, exponent) =>
    ofBits negative (bitsOfDecimal coefficient exponent)

/-- The number that the text stands for, with an optional sign. -/
def read? : List Char → Option Binary64
  | '-' :: cs => readUnsigned? true cs
  | '+' :: cs => readUnsigned? false cs
  | cs => readUnsigned? false cs

def isNegative (x : Binary64) : Bool := Nat.pow 2 63 ≤ x.bits.toNat

/-- The bits of the absolute value. -/
def magnitude (x : Binary64) : Nat := x.bits.toNat % Nat.pow 2 63

/-- The absolute value of a finite number as a significand and a power of two. -/
def parts (x : Binary64) : Nat × Int :=
  let exponent : Nat := x.magnitude / Nat.pow 2 52
  let fraction : Nat := x.magnitude % Nat.pow 2 52
  if exponent = 0 then (fraction, -1074) else (fraction + Nat.pow 2 52, (exponent : Int) - 1075)

end Binary64

end BuildTyping
