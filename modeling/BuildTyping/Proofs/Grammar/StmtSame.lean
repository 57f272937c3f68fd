import BuildTyping.Proofs.Grammar.ExprSame
import BuildTyping.Proofs.Grammar.Statement

/-!
# Statements never lean on the guard of their recursion

A body begins behind a colon and a branch after `elif` behind a body, so the statements within a
statement are read where fewer moves are left.
-/

namespace BuildTyping

namespace Parse

variable {g : Grammar} {n : Nat} {expr : Precedence → Parse Expr} {stmt stmt' : Parse Stmt}
  {r : Reader}

theorem blockTurn_same (hstmt : SameBelow n Onwards stmt stmt') :
    SameBelow n InTurn (blockTurn stmt) (blockTurn stmt') := by
  simp only [blockTurn, inBody, bind_assoc, pure_bind]
  exact .kind fun k => .ite hstmt.some .stop

theorem inlineTurn_same (hstmt : SameBelow n Onwards stmt stmt') :
    SameBelow n InTurn (inlineTurn stmt) (inlineTurn stmt') := by
  simp only [inlineTurn, inBody, bind_assoc, pure_bind]
  exact .get fun s => .kind fun k => .ite hstmt.some .stop

theorem body_same (hstmt : SameBelow n Onwards stmt stmt') :
    SameBelow n Freely (body stmt) (body stmt') := by
  refine .expectFor fun t => .kind fun k => .ite (.advance fun u => .expectFor fun v => ?_) ?_
  · exact (blockTurn_same hstmt).many.bind fun ss => .expect fun w => .pure ss
  · exact hstmt.bind fun s => (inlineTurn_same hstmt).many.bind fun ss => .pure (s :: ss)

theorem statementEnd_same : SameBelow n Freely statementEnd statementEnd := by
  refine .kind fun k => ?_
  split
  · exact .advance fun t => .kind fun k => .ite (.advance fun u => .pure _) (.pure _)
  · exact .advance fun t => .pure _
  · exact .pure _
  · exact .pure _
  · exact .unmet _

theorem checkTarget_same (target : Expr) :
    SameBelow n Freely (checkTarget target) (checkTarget target) := by
  unfold checkTarget
  split
  · exact .throw _
  · exact .pure _

theorem parameterKind_moves (r : Reader) :
    Ensures parameterKind r fun ts k _ => k = .varArgs → ts ≠ [] := by
  refine .kind ?_
  split
  · rename_i hk
    exact .advance (by simp [hk]) (.pure (by simp))
  · rename_i hk
    exact .advance (by simp [hk]) (.pure (by simp))
  · exact .pure (by simp)

section Parts

variable (hexpr : ∀ {m : Nat} p, SameBelow m Onwards (expr p) (expr p))

include hexpr

theorem simpleForm_same (first : Expr) :
    SameBelow n Freely (simpleForm g expr first) (simpleForm g expr first) := by
  refine .kind fun k => ?_
  split
  · refine .ite (.advance fun t => (checkTarget_same first).bind fun _ => ?_) (.ite ?_ (.pure _))
    · exact (commaList_same hexpr _).bind fun value => .pure _
    · refine .advance fun t => ?_
      cases BinaryOp.ofKind? t.kind with
      | some op =>
        exact .ite ((commaList_same hexpr _).bind fun value => .pure _) (.throw _)
      | none => exact .unexpected t
  · exact .pure _

theorem simple_same : SameBelow n Onwards (simple g expr) (simple g expr) := by
  refine .get fun s => (commaList_same hexpr _).onwards fun first => ?_
  refine (simpleForm_same hexpr first).bind fun form => .spanFrom fun span => ?_
  exact statementEnd_same.bind fun _ => .pure _

theorem default_same : SameBelow n Freely (default? expr) (default? expr) :=
  .kind fun _ => .ite (.advance fun _ => (hexpr _).some.freely) (.pure none)

/-- A parameter has a star or a name. -/
theorem parameter_onwards (r : Reader) : Ensures (parameter expr) r Onwards := by
  refine .get ((parameterKind_moves r).bind fun ts paramKind mid _ hstar => .kind ?_)
  split
  · rename_i hbare
    have hts : ts ≠ [] := hstar hbare.1
    refine .kind ?_
    split
    · rename_i hk
      exact .advance (by simp [hk]) (.pure (by simp [Onwards, hts]))
    · exact .pure (by simp [Onwards, hts])
  · refine .expectFor (by simp) fun hk => ?_
    have finish {x : Parse (Option Expr)} (hx : ∀ n, SameBelow n Freely x x) :
        Ensures (x >>= fun value => spanFrom r.current.span.start >>= fun span =>
          separator "expected `,` or `)` in parameter list" >>= fun _ =>
            pure (some (⟨mid.current.value, paramKind, value, span⟩ : Parameter))) mid.next
          fun us => Onwards (ts ++ mid.current :: us) := by
      refine .mono (P := Freely) (SameBelow.ensures (fun n => ?_) mid.next) ?_
      · exact (hx n).bind fun value => .spanFrom fun span => (separator_same _).bind fun _ =>
          .pure _
      · exact fun us _ _ _ _ => by simp [Onwards]
    split
    · exact finish fun _ => default_same hexpr
    · exact finish fun _ => .pure none

theorem parameterTurn_same : SameBelow n InTurn (parameterTurn expr) (parameterTurn expr) :=
  .kind fun _ => .ite .stop (SameBelow.of_ensures (parameter_onwards hexpr)).some

end Parts
theorem otherwise_same (hstmt : SameBelow n Onwards stmt stmt') {elif elif' : Parse Stmt}
    (helif : ∀ r, r.current.kind = .keyword .elif → r.remaining < n → Same Onwards elif elif' r) :
    SameBelow n Freely (otherwise stmt elif) (otherwise stmt' elif') := by
  intro r hn
  refine .kind ?_
  split
  · rename_i hk
    exact (helif r hk hn).bind fun _ _ _ _ _ => .of_ensures (.pure trivial)
  · exact SameBelow.advance (fun t => body_same hstmt) r hn
  · exact .of_ensures (.pure trivial)

/-- Whatever starts a statement, the statements within it are read further on. -/
theorem statementOf_same (hexpr : ∀ p r, Ensures (expr p) r Onwards)
    (hstmt : SameBelow n Onwards stmt stmt') {elif elif' : Parse Stmt}
    (helif : ∀ r, r.current.kind = .keyword .elif → r.remaining < n → Same Onwards elif elif' r)
    {rule : Option StatementRule} (hn : r.remaining ≤ n)
    (hk : rule.isSome = true → r.current.kind ≠ .endOfSource) :
    Same Onwards (statementOf g expr stmt elif rule) (statementOf g expr stmt' elif' rule) r := by
  have hparts {m : Nat} (p : Precedence) : SameBelow m Onwards (expr p) (expr p) :=
    .of_ensures (hexpr p)
  cases rule with
  | none => exact simple_same hparts r (Nat.lt_succ_self _)
  | some rule =>
    have hne := hk rfl
    cases rule with
    | define =>
      refine .advance hne hn fun t => .expectFor fun name => .expect fun u => ?_
      refine (parameterTurn_same hparts).many.bind fun parameters => .expect fun v => ?_
      exact (body_same hstmt).bind fun statements => .spanFrom fun span => .pure _
    | return_ =>
      have finish (t : Token) {x : Parse (Option Expr)} (hx : SameBelow n Freely x x) :
          SameBelow n Freely (x >>= fun value => spanFrom t.span.start >>= fun span =>
            statementEnd >>= fun _ => pure (⟨span, .return_ value⟩ : Stmt)) _ :=
        hx.bind fun value => .spanFrom fun span => statementEnd_same.bind fun _ => .pure _
      refine .advance hne hn fun t => .kind fun k => ?_
      simp only
      split
      case h_5 => exact finish t (commaList_same hparts _).some.freely
      all_goals exact finish t (.pure none)
    | branch =>
      rw [statementOf, statementOf, branch_eq, branch_eq]
      refine .advance hne hn fun t => (hparts _).bind fun condition => ?_
      refine (body_same hstmt).bind fun statements => ?_
      refine (otherwise_same hstmt helif).bind fun other => ?_
      exact .spanFrom fun span => .pure _
    | loop =>
      refine .advance hne hn fun t => (commaList_same hparts _).bind fun target => ?_
      refine (checkTarget_same target).bind fun _ => .expectFor fun u => ?_
      refine (commaList_same hparts _).bind fun iterable => (body_same hstmt).bind fun ss => ?_
      exact .spanFrom fun span => .pure _
    | word =>
      refine .advance hne hn fun t => ?_
      simp only
      split
      all_goals first | exact statementEnd_same.bind fun _ => .pure _ | exact .unexpected t

/-- A statement whose bodies and branches are nested less than `n` deep, and at that depth are
read by `stuck`. -/
def nestedStatement (g : Grammar) (stuck : Option StatementRule → Parse Stmt) :
    Nat → Option StatementRule → Parse Stmt
  | 0 => stuck
  | n + 1 => statementOf g (expression g)
    (fun r => nestedStatement g stuck n (g.statements r.current.kind) r)
    (nestedStatement g stuck n (some .branch))

end Parse

open Parse

variable {g : Grammar} {rule : Option StatementRule} {r : Reader}

theorem kind_ne_endOfSource_of_statements (hg : g.Solid) {kind : TokenKind}
    (h : (g.statements kind).isSome = true) : kind ≠ .endOfSource :=
  TokenKind.ne_endOfSource_of_isSolid (hg.statements h)

/-- The guards of the recursion make no difference: a statement is read by its rule from
statements. -/
theorem statementBy_same (hg : g.Solid)
    (hk : rule.isSome = true → r.current.kind ≠ .endOfSource) :
    Same Onwards (statementBy g rule)
      (statementOf g (expression g) (statement g) (statementBy g (some .branch)) rule) r := by
  induction hn : r.remaining using Nat.strongRecOn generalizing r rule with
  | ind n ih =>
    subst hn
    have hstmt : SameBelow r.remaining Onwards (fun r' => if r'.remaining < r.remaining then
        statement g r' else unmet "expected a statement" r') (statement g) := by
      refine .guarded (fun r' hlt => ?_) _
      exact (ih _ hlt (kind_ne_endOfSource_of_statements hg) rfl).ensures
    unfold Same
    rw [statementBy]
    refine statementOf_same (expression_onwards hg) hstmt (fun r' hk' hlt hr' => ?_) le_rfl hk
    simp only [if_pos hlt]
    exact ⟨trivial, (ih _ hlt (fun _ => by simp [hk']) rfl).ensures hr'⟩

theorem statement_onwards (hg : g.Solid) (r : Reader) : Ensures (statement g) r Onwards :=
  (statementBy_same hg (kind_ne_endOfSource_of_statements hg)).ensures

/-- No statement is nested as deep as there are tokens, so what would be done at that depth makes
no difference. -/
theorem nestedStatement_same (hg : g.Solid) (stuck : Option StatementRule → Parse Stmt) (n : Nat)
    (hn : r.remaining < n) (hk : rule.isSome = true → r.current.kind ≠ .endOfSource) :
    Same Onwards (nestedStatement g stuck n rule) (statementBy g rule) r := by
  induction n generalizing r rule with
  | zero => omega
  | succ n ih =>
    intro hr
    have hstmt : SameBelow n Onwards
        (fun r => nestedStatement g stuck n (g.statements r.current.kind) r) (statement g) :=
      fun r' hlt => ih hlt (kind_ne_endOfSource_of_statements hg)
    obtain ⟨heq, hlands⟩ := statementOf_same (expression_onwards hg) hstmt
      (fun r' hk' hlt => ih hlt fun _ => by simp [hk']) (Nat.le_of_lt_succ hn) hk hr
    exact ⟨heq.trans (statementBy_same hg hk hr).1.symm, hlands⟩

end BuildTyping
