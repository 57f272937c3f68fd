import BuildTyping.Number.Binary64

/-!
# The shortest decimal text of a floating-point number

Of the decimals that round to a number, the one with the fewest digits is chosen, of these the
nearest to the number, and of two equally near ones the greater.
-/

namespace BuildTyping

/-- The decimal `0.d₁d₂… × 10 ^ point` with the digits `d₁d₂…`. -/
structure Decimal where
  digits : List Char
  point : Int
  deriving DecidableEq, Repr

/-- A positive rational as a fraction. -/
structure Ratio where
  num : Nat
  den : Nat
  deriving DecidableEq, Repr

namespace Ratio

def le (a b : Ratio) : Bool := a.num * b.den ≤ b.num * a.den
def lt (a b : Ratio) : Bool := a.num * b.den < b.num * a.den

/-- A natural number times a power of a base. -/
def ofScaled (n base : Nat) (exponent : Int) : Ratio :=
  if 0 ≤ exponent then ⟨n * base.pow exponent.toNat, 1⟩ else ⟨n, base.pow (-exponent).toNat⟩

/-- The least power of ten greater than the fraction, for a fraction not far below 1. -/
def decimalPoint (r : Ratio) : Int :=
  if r.den ≤ r.num then (Nat.toDigits 10 (r.num / r.den)).length
  else
    let zeros := (List.range 400).find? fun n => r.den ≤ r.num * Nat.pow 10 (n + 1)
    Int.negOfNat (zeros.getD 400)

end Ratio

namespace Binary64

/-- The bounds of the reals that round to a positive number. Below a power of two the numbers lie
twice as densely. -/
def interval (m : Nat) (q : Int) : Ratio × Ratio :=
  let lower := if m = Nat.pow 2 52 ∧ -1074 < q then Ratio.ofScaled (4 * m - 1) 2 (q - 2)
    else Ratio.ofScaled (2 * m - 1) 2 (q - 1)
  (lower, Ratio.ofScaled (2 * m + 1) 2 (q - 1))

/-- The bounds themselves round to the number if its significand is even. -/
def roundsTo (m : Nat) (q : Int) (r : Ratio) : Bool :=
  let (lower, upper) := interval m q
  if m % 2 = 0 then lower.le r && r.le upper else lower.lt r && r.lt upper

/-- The decimal of `count` digits nearest to a positive number, if one rounds to it. -/
def decimalOf? (m : Nat) (q : Int) (point : Int) (count : Nat) : Option Decimal :=
  let value := Ratio.ofScaled m 2 q
  let unit : Int := point - count
  let scaled := if 0 ≤ unit then (⟨value.num, value.den * Nat.pow 10 unit.toNat⟩ : Ratio)
    else ⟨value.num * Nat.pow 10 (-unit).toNat, value.den⟩
  let below := scaled.num / scaled.den
  let rest := scaled.num % scaled.den
  let candidates := if 2 * rest < scaled.den then [below, below + 1] else [below + 1, below]
  let fits (n : Nat) := 0 < n && roundsTo m q (Ratio.ofScaled n 10 unit)
  (candidates.find? fits).map fun n =>
    let digits := Nat.toDigits 10 n
    ⟨(digits.reverse.dropWhile (· == '0')).reverse, unit + digits.length⟩

/-- The shortest decimal of a positive number. Seventeen digits always suffice. -/
def shortest (m : Nat) (q : Int) : Decimal :=
  let point := (Ratio.ofScaled m 2 q).decimalPoint
  ((List.range 17).findSome? fun n => decimalOf? m q point (n + 1)).getD ⟨['0'], 1⟩

/-- Positional notation with at least one digit on each side of the point. -/
def positional (d : Decimal) : List Char :=
  if d.point ≤ 0 then
    ['0', '.'] ++ List.replicate (-d.point).toNat '0' ++ d.digits
  else
    let whole := d.point.toNat
    if d.digits.length ≤ whole then
      d.digits ++ List.replicate (whole - d.digits.length) '0' ++ ['.', '0']
    else d.digits.take whole ++ ['.'] ++ d.digits.drop whole

/-- One digit, then a point if more follow, and an exponent. -/
def scientific (d : Decimal) : List Char :=
  let fraction := if d.digits.length ≤ 1 then [] else '.' :: d.digits.drop 1
  d.digits.take 1 ++ fraction ++ ['e'] ++ (toString (d.point - 1)).toList

/-- Numbers from `10 ^ 16` on and below `10 ^ -4` have an exponent. -/
def decimalText (d : Decimal) : List Char :=
  if d.point < -3 ∨ 16 < d.point then scientific d else positional d

def text (x : Binary64) : String :=
  let sign := if x.isNegative then ['-'] else []
  if infinityBits < x.magnitude then "NaN"
  else if x.magnitude = infinityBits then String.ofList (sign ++ "inf".toList)
  else if x.magnitude = 0 then String.ofList (sign ++ "0.0".toList)
  else
    let (m, q) := x.parts
    String.ofList (sign ++ decimalText (shortest m q))

end Binary64

end BuildTyping
