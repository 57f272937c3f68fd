/-!
# Digits and natural numbers in a radix
-/

namespace BuildTyping

/-- The value of a digit or letter, if the radix has it. Letters count from ten in either case. -/
def digitValue? (radix : Nat) (c : Char) : Option Nat :=
  let value :=
    if c.isDigit then some (c.toNat - '0'.toNat)
    else if 'a' ≤ c && c ≤ 'z' then some (c.toNat - 'a'.toNat + 10)
    else if 'A' ≤ c && c ≤ 'Z' then some (c.toNat - 'A'.toNat + 10)
    else none
  value.filter (· < radix)

/-- The number with these digits, the most significant first. -/
def ofDigits (radix : Nat) (digits : List Nat) : Nat :=
  digits.foldl (fun n d => radix * n + d) 0

/-- At least one digit, and nothing else. -/
def readNatural? (radix : Nat) (cs : List Char) : Option Nat :=
  if cs.isEmpty then none else (cs.mapM (digitValue? radix)).map (ofDigits radix)

@[simp] theorem ofDigits_nil (radix : Nat) : ofDigits radix [] = 0 := rfl

theorem ofDigits_append_singleton (radix : Nat) (digits : List Nat) (d : Nat) :
    ofDigits radix (digits ++ [d]) = radix * ofDigits radix digits + d := by
  simp [ofDigits]

end BuildTyping
