import BuildTyping.Proofs.Syntax.Words

/-!
# Levels and the words around an expression

How far an expression without brackets reaches over the word after it, and how the words of an
expression begin.
-/

namespace BuildTyping

namespace Precedence

/-- A word after an expression of the level is no part of it if the word binds no more tightly
than this. A conditional ends in a part of any level and a power may end in a sign and its
operand. -/
def reach : Precedence → Precedence
  | conditional => lowest
  | power => unary
  | call => primary
  | p => p

/-- An expression of the level is read whole where all must bind more tightly than `least`. What
stands after a prefix operator is read whole wherever the operator stands. -/
def Admits (least level : Precedence) : Prop := least < level ∨ level = .negation ∨ level = .unary

theorem lowest_le (p : Precedence) : lowest ≤ p := Nat.zero_le _

theorem le_trans {p q s : Precedence} (h : p ≤ q) (h' : q ≤ s) : p ≤ s := Nat.le_trans h h'

theorem lt_of_lt_of_le {p q s : Precedence} (h : p < q) (h' : q ≤ s) : p < s :=
  Nat.lt_of_lt_of_le h h'

theorem le_of_lt {p q : Precedence} (h : p < q) : p ≤ q := Nat.le_of_lt h

theorem not_lt {p q : Precedence} : ¬p < q ↔ q ≤ p := Nat.not_lt

theorem le_primary (p : Precedence) : p ≤ primary := by cases p <;> decide

theorem reach_mono {p q : Precedence} (h : p ≤ q) : p.reach ≤ q.reach := by
  have hall : ∀ p ∈ all, ∀ q ∈ all, p ≤ q → p.reach ≤ q.reach := by decide
  exact hall p (mem_all p) q (mem_all q) h

/-- Above a power stand only calls and what is in brackets. -/
theorem le_reach_of_power_lt {p q : Precedence} (h : power < q) : p ≤ q.reach := by
  have hq : q.reach = primary := by cases q <;> first | rfl | exact absurd h (by decide)
  rw [hq]
  exact le_primary p

theorem conditional_le_reach {q : Precedence} (h : conditional < q) : conditional ≤ q.reach := by
  cases q <;> first | exact absurd h (by decide) | decide

/-- The operand of a prefix operator binds as tightly as the operator does, or is another prefix
operator and its operand. -/
theorem admits_operand {op : UnaryOp} {level : Precedence}
    (h : Parse.operandPrecedence op ≤ level) : (Parse.operandPrecedence op).Admits level := by
  unfold Admits
  cases op <;> cases level <;> first | exact absurd h (by decide) | decide

theorem admits_unary {level : Precedence} (h : unary ≤ level) : unary.Admits level :=
  @admits_operand .negate level h

theorem lt_of_admits {least level : Precedence} (h : least.Admits level)
    (hn : level ≠ negation) (hu : level ≠ unary) : least < level := by
  rcases h with h | h | h
  · exact h
  · exact absurd h hn
  · exact absurd h hu

theorem reach_operandPrecedence (op : UnaryOp) :
    (Parse.operandPrecedence op).reach = Parse.operandPrecedence op := by
  cases op <;> rfl

end Precedence

namespace BinaryOp

theorem precedence_word (op : BinaryOp) :
    Grammar.standard.precedence op.word.kind = op.precedence := by
  cases op <;> rfl

/-- No operator between operands has the level of a prefix operator. -/
theorem lt_precedence_of_admits {op : BinaryOp} {least : Precedence}
    (h : least.Admits op.precedence) : least < op.precedence :=
  Precedence.lt_of_admits h (by cases op <;> simp [precedence]) (by cases op <;> simp [precedence])

theorem reach_precedence {op : BinaryOp} (h : op ≠ .power) :
    op.precedence.reach = op.precedence := by
  cases op <;> first | rfl | exact absurd rfl h

theorem continues_word {op : BinaryOp} (hp : op ≠ .power) (hn : op ≠ .notIn) :
    Grammar.standard.continues op.word.kind = some (op.precedence, .binary) := by
  cases op <;> first | rfl | exact absurd rfl hp | exact absurd rfl hn

theorem ofKind?_word {op : BinaryOp} (hn : op ≠ .notIn) : ofKind? op.word.kind = some op := by
  cases op <;> first | rfl | exact absurd rfl hn

end BinaryOp

namespace UnaryOp

theorem starts_word (op : UnaryOp) : Grammar.standard.starts op.word.kind = some .unary := by
  cases op <;> rfl

theorem ofKind?_word (op : UnaryOp) : ofKind? op.word.kind = some op := by
  cases op <;> rfl

end UnaryOp

/-- No kind that starts an expression is one that starts none. -/
theorem ne_of_starts {kind kind' : TokenKind}
    (h : (Grammar.standard.starts kind).isSome = true)
    (h' : Grammar.standard.starts kind' = none) : kind ≠ kind' := by
  rintro rfl
  simp [h'] at h

/-- The words do not begin with the sign of a keyword argument. -/
def Plain (ws : List Word) : Prop := ∀ w ∈ ws.head?, w.kind ≠ .sign .assign

/-- The words begin as an expression does, and do not go on as a keyword argument does. -/
def Opens (ws : List Word) : Prop :=
  ∃ w us, ws = w :: us ∧ (Grammar.standard.starts w.kind).isSome = true ∧ Plain us

namespace Plain

variable {ws us : List Word} {w : Word}

theorem nil : Plain [] := by simp [Plain]

theorem cons (h : w.kind ≠ .sign .assign) : Plain (w :: ws) := by simpa [Plain] using h

theorem append (h : Plain ws) (h' : Plain us) : Plain (ws ++ us) := by
  cases ws with
  | nil => exact h'
  | cons w ws => exact cons (h w (by simp))

theorem separated {wss : List (List Word)} (h : ∀ ws ∈ wss, Plain ws) : Plain (separated wss) := by
  cases wss with
  | nil => exact nil
  | cons ws wss =>
    apply append (h ws (by simp))
    cases wss with
    | nil => exact nil
    | cons us wss => exact cons (by simp [Word.sign])

end Plain

namespace Opens

variable {ws us : List Word} {w : Word} {b : Bracket} {e : Expr} {p : Precedence}

theorem ne_nil (h : Opens ws) : ws ≠ [] := by
  obtain ⟨w, us, rfl, -⟩ := h
  simp

theorem plain (h : Opens ws) : Plain ws := by
  obtain ⟨w, us, rfl, hs, -⟩ := h
  exact .cons (ne_of_starts hs rfl)

theorem plain_append (h : Opens ws) : Plain (ws ++ us) := by
  obtain ⟨w, vs, rfl, hs, -⟩ := h
  exact .cons (ne_of_starts hs rfl)

theorem singleton (hs : (Grammar.standard.starts w.kind).isSome = true) : Opens [w] :=
  ⟨w, [], rfl, hs, .nil⟩

theorem append (h : Opens ws) (hus : Plain us) : Opens (ws ++ us) := by
  obtain ⟨w, vs, rfl, hs, hvs⟩ := h
  exact ⟨w, vs ++ us, rfl, hs, hvs.append hus⟩

theorem enclosed (h : Plain ws) : Opens (enclosed b ws) :=
  ⟨.opening b, ws ++ [.closing b], rfl, by cases b <;> rfl,
    h.append (.cons (by simp [Word.closing]))⟩

end Opens

end BuildTyping
