import BuildTyping.Proofs.Syntax.Words

/-!
# Operators in the places of operands

An operand binds at least as tightly as its place requires, or else it would need brackets. An
operand that comes behind its operator may be excused.
-/

namespace BuildTyping.Expr

def isNot (e : Expr) : Bool :=
  match e.shape with
  | .unary .not_ _ => true
  | _ => false

/-- The operands of the expression need no brackets, but for those behind an operator that are
excused. -/
def Ranks (excused : Expr → Bool) (e : Expr) : Prop :=
  match e.shape with
  | .binary .power left right =>
    .power < left.level ∧ (.unary ≤ right.level ∨ excused right = true)
  | .binary op left right =>
    op.precedence ≤ left.level ∧ (op.precedence < right.level ∨ excused right = true)
  | .unary .not_ operand => .negation ≤ operand.level
  | .unary _ operand => .unary ≤ operand.level ∨ excused operand = true
  | .conditional whenTrue condition _ =>
    .conditional < whenTrue.level ∧ .conditional < condition.level
  | _ => True

/-- No operand anywhere in the expression needs brackets unless it is excused. -/
def Ordered (excused : Expr → Bool) (e : Expr) : Prop := ∀ node ∈ e.nodes, node.Ranks excused

instance (excused : Expr → Bool) (e : Expr) : Decidable (e.Ranks excused) := by
  unfold Ranks
  split <;> infer_instance

instance (excused : Expr → Bool) (e : Expr) : Decidable (e.Ordered excused) :=
  inferInstanceAs (Decidable (∀ node ∈ e.nodes, node.Ranks excused))

variable {excused : Expr → Bool}

theorem ordered_iff {e : Expr} :
    e.Ordered excused ↔ e.Ranks excused ∧ ∀ part ∈ e.shape.parts, part.Ordered excused := by
  rw [Ordered, nodes_eq, List.forall_mem_cons, List.forall_mem_flatMap]
  rfl

theorem ordered_mk {id : Nat} {span : Span} {shape : Shape Expr} :
    Ordered excused ⟨id, span, shape⟩ ↔
      Ranks excused ⟨id, span, shape⟩ ∧ ∀ part ∈ shape.parts, part.Ordered excused :=
  ordered_iff

theorem ranks_binary {id : Nat} {span : Span} {op : BinaryOp} (h : op ≠ .power)
    {left right : Expr} : Ranks excused ⟨id, span, .binary op left right⟩ ↔
      op.precedence ≤ left.level ∧ (op.precedence < right.level ∨ excused right = true) := by
  cases op <;> first | exact Iff.rfl | exact absurd rfl h

/-- Only `not` binds as tightly as `not`. -/
theorem isNot_of_level {e : Expr} (h : e.level = .negation) : e.isNot = true := by
  obtain ⟨id, span, shape⟩ := e
  cases shape with
  | unary op operand => cases op <;> simp_all [level, Shape.level, isNot, Parse.operandPrecedence]
  | binary op left right => cases op <;> simp_all [level, Shape.level, BinaryOp.precedence]
  | _ => simp_all [level, Shape.level]

end BuildTyping.Expr
