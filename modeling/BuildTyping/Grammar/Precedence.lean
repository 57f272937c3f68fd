/-!
# Precedence

How tightly an operator binds its operands, from the loosest to the tightest.
-/

namespace BuildTyping

inductive Precedence where
  | lowest | conditional | disjunction | conjunction | negation | comparison
  | bitOr | bitXor | bitAnd | shift | additive | multiplicative | unary | power | call | primary
  deriving DecidableEq, Repr

namespace Precedence

def all : List Precedence :=
  [lowest, conditional, disjunction, conjunction, negation, comparison, bitOr, bitXor, bitAnd,
    shift, additive, multiplicative, unary, power, call, primary]

/-- The number of looser precedences. -/
def rank : Precedence → Nat
  | lowest => 0
  | conditional => 1
  | disjunction => 2
  | conjunction => 3
  | negation => 4
  | comparison => 5
  | bitOr => 6
  | bitXor => 7
  | bitAnd => 8
  | shift => 9
  | additive => 10
  | multiplicative => 11
  | unary => 12
  | power => 13
  | call => 14
  | primary => 15

instance : LT Precedence := ⟨fun p q => p.rank < q.rank⟩
instance : LE Precedence := ⟨fun p q => p.rank ≤ q.rank⟩

instance (p q : Precedence) : Decidable (p < q) := inferInstanceAs (Decidable (p.rank < q.rank))
instance (p q : Precedence) : Decidable (p ≤ q) := inferInstanceAs (Decidable (p.rank ≤ q.rank))

theorem lt_iff (p q : Precedence) : p < q ↔ p.rank < q.rank := Iff.rfl
theorem le_iff (p q : Precedence) : p ≤ q ↔ p.rank ≤ q.rank := Iff.rfl

theorem mem_all (p : Precedence) : p ∈ all := by cases p <;> decide

end Precedence

end BuildTyping
