import BuildTyping.Proofs.Grammar.Level

/-!
# What the table of the grammar says

One case for each row: the tokens by which a rule begins, and how tightly they bind.
-/

namespace BuildTyping

/-- Outside augmented assignments an operator is written by one sign only. -/
theorem BinaryOp.word_of_ofSign? {s : Sign} {op : BinaryOp} (h : ofSign? s = some op)
    (ha : ¬ s.isAugmented = true) : op.word.kind = .sign s ∧ op ≠ .notIn := by
  cases s <;> simp_all [ofSign?, Sign.isAugmented] <;> subst h <;> simp [word, Word.sign]

namespace Grammar

/-- The rule begins an expression at a token of the kind. -/
inductive Begins : TokenKind → StartRule → Prop where
  | atom (kind : TokenKind) : Begins kind .atom
  | unary (op : UnaryOp) : Begins op.word.kind .unary
  | group : Begins (.opening .round) .group
  | list : Begins (.opening .square) .list
  | dict : Begins (.opening .curly) .dict

/-- The rule goes on with an expression at a token of the kind, which binds as tightly as `p`. -/
inductive GoesOn : TokenKind → Precedence → ContinueRule → Prop where
  | binary (op : BinaryOp) (power : op ≠ .power) (notIn : op ≠ .notIn) :
    GoesOn op.word.kind op.precedence .binary
  | power : GoesOn (.sign .starStar) .power .power
  | notIn : GoesOn (.keyword .not_) .comparison .notIn
  | conditional : GoesOn (.keyword .if_) .conditional .conditional
  | call : GoesOn (.opening .round) .call .call
  | subscript : GoesOn (.opening .square) .call .subscript
  | member : GoesOn (.sign .dot) .call .member

theorem begins_of_starts {kind : TokenKind} {rule : StartRule}
    (h : standard.starts kind = some rule) : Begins kind rule := by
  cases kind with
  | sign s =>
    cases s with
    | minus =>
      cases h
      exact .unary .negate
    | plus =>
      cases h
      exact .unary .plus
    | tilde =>
      cases h
      exact .unary .invert
    | _ => cases h
  | keyword word =>
    cases word with
    | not_ =>
      cases h
      exact .unary .not_
    | true_ | false_ | none_ =>
      cases h
      exact .atom _
    | _ => cases h
  | opening b => cases b <;> cases h <;> constructor
  | int | float | string | identifier =>
    cases h
    exact .atom _
  | _ => cases h

theorem goesOn_of_continues {kind : TokenKind} {p : Precedence} {rule : ContinueRule}
    (h : standard.continues kind = some (p, rule)) : GoesOn kind p rule := by
  cases kind with
  | sign s =>
    cases hop : BinaryOp.ofSign? s with
    | none =>
      cases s <;> cases hop <;> cases h
      exact .member
    | some op =>
      by_cases ha : s.isAugmented = true
      · cases s <;> cases ha <;> cases h
      · obtain ⟨hw, hn⟩ := BinaryOp.word_of_ofSign? hop ha
        rw [← hw] at h ⊢
        by_cases hp : op = .power
        · subst hp
          cases h
          exact .power
        · rw [BinaryOp.continues_word hp hn] at h
          cases h
          exact .binary op hp hn
  | keyword word =>
    cases word with
    | if_ =>
      cases h
      exact .conditional
    | not_ =>
      cases h
      exact .notIn
    | or_ =>
      cases h
      exact .binary .or_ (by simp) (by simp)
    | and_ =>
      cases h
      exact .binary .and_ (by simp) (by simp)
    | in_ =>
      cases h
      exact .binary .in_ (by simp) (by simp)
    | _ => cases h
  | opening b => cases b <;> cases h <;> constructor
  | _ => cases h

end Grammar

end BuildTyping
