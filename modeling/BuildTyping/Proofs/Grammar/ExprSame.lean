import BuildTyping.Proofs.Grammar.Expression
import BuildTyping.Proofs.Grammar.Same
import BuildTyping.Proofs.Grammar.Turns

/-!
# Expressions never lean on the guard of their recursion

Every rule moves on before it reads a part, so what the reader of parts does where no fewer moves
are left makes no difference.
-/

namespace BuildTyping

namespace Parse

variable {α : Type} {g : Grammar} {n : Nat} {sub sub' : Precedence → Parse Expr} {r : Reader}

theorem commaTurn_same (hsub : ∀ p, SameBelow n Onwards (sub p) (sub' p)) (p : Precedence) :
    SameBelow n InTurn (commaTurn g sub p) (commaTurn g sub' p) := by
  intro r hn
  refine .kind ?_
  split
  · rename_i hk
    refine .inTurn (.advance (by simp [hk]) hn.le fun t => ?_)
    exact .bind (.kind fun k => .pure _) fun starts => .ite ((hsub p).some.freely) (.pure none)
  · exact .stop

theorem commaList_same (hsub : ∀ p, SameBelow n Onwards (sub p) (sub' p)) (p : Precedence) :
    SameBelow n Onwards (commaList g sub p) (commaList g sub' p) := by
  refine (hsub p).onwards fun first => .kind fun k => .ite ?_ (.pure first)
  exact (commaTurn_same hsub p).many.bind fun others => .spanFrom fun span => .node span _

theorem clauseTurn_same (hsub : ∀ p, SameBelow n Onwards (sub p) (sub' p)) :
    SameBelow n InTurn (clauseTurn g sub) (clauseTurn g sub') := by
  intro r hn
  refine .kind ?_
  split
  · rename_i hk
    refine .inTurn (.advance (by simp [hk]) hn.le fun t => ?_)
    refine (commaList_same hsub _).bind fun target => .expect fun u => ?_
    exact (hsub _).bind fun iterable => .pure _
  · rename_i hk
    refine .inTurn (.advance (by simp [hk]) hn.le fun t => ?_)
    exact (hsub _).bind fun condition => .pure _
  · exact .stop

theorem itemTurn_same (bracket : Bracket) {item item' : Parse α}
    (h : SameBelow n Onwards item item') :
    SameBelow n InTurn (itemTurn bracket item) (itemTurn bracket item') := by
  intro r hn
  refine .kind ?_
  split
  · rename_i hk
    refine .inTurn (.advance (by simp [hk]) hn.le fun t => ?_)
    exact .kind fun k => .ite (.pure none) h.some.freely
  · exact .stop

theorem separator_same (message : String) :
    SameBelow n Freely (separator message) (separator message) :=
  .kind fun _ => .ite (.advance fun _ => .pure _) (.ite (.unmet message) (.pure _))

theorem argument_same (hsub : ∀ p, SameBelow n Onwards (sub p) (sub' p)) :
    SameBelow n Onwards (argument sub) (argument sub') := by
  intro r hn
  have value (f : Expr → Argument Expr) : SameBelow n Onwards
      (sub .lowest >>= fun e => pure (f e)) (sub' .lowest >>= fun e => pure (f e)) :=
    (hsub _).onwards fun e => .pure _
  refine .get ?_
  split
  · rename_i hk
    exact .advance (by simp [hk]) hn.le fun t => (value .unpack).freely
  · rename_i hk
    exact .advance (by simp [hk]) hn.le fun t => (value .unpackKeywords).freely
  · rename_i hk
    split
    · exact .advance (by simp [hk]) hn.le fun t => .advance fun u =>
        (value (.keyword t.value t.span)).freely
    · exact value .positional r hn
  · exact value .positional r hn

theorem argumentTurn_same (hsub : ∀ p, SameBelow n Onwards (sub p) (sub' p)) :
    SameBelow n InTurn (argumentTurn sub) (argumentTurn sub') := by
  refine .kind fun k => .ite .stop fun r hn => .inTurn ?_
  refine SameBelow.onwards (argument_same hsub) (fun a => ?_) r hn
  exact (separator_same _).bind fun _ => .pure _

theorem entry_same (hsub : ∀ p, SameBelow n Onwards (sub p) (sub' p)) :
    SameBelow n Onwards (entry sub) (entry sub') :=
  (hsub _).onwards fun _ => .expectFor fun _ => (hsub _).bind fun _ => .pure _

/-- A literal or a name has no parts. -/
theorem atom_same : Same Onwards atom atom r := by
  have leaf (hk : r.current.kind ≠ .endOfSource) (shape : Shape Expr) :
      Same Onwards (advance >>= fun _ => node r.current.span shape)
        (advance >>= fun _ => node r.current.span shape) r :=
    .advance hk le_rfl fun _ => .node _ shape
  refine .get ?_
  simp only
  split
  case h_1 hk =>
    cases Integer.read? r.current.value.toList with
    | some n => exact leaf (by simp [hk]) _
    | none => exact .of_ensures (.throw _)
  case h_2 hk =>
    cases Binary64.read? r.current.value.toList with
    | some x => exact leaf (by simp [hk]) _
    | none => exact .of_ensures (.throw _)
  case h_8 => exact .of_ensures (.unmet _)
  all_goals
    rename_i hk
    exact leaf (by simp [hk]) _

/-- Whatever starts an expression, its parts are read further on. -/
theorem startWith_same (hsub : ∀ p, SameBelow n Onwards (sub p) (sub' p)) (hn : r.remaining ≤ n)
    (hk : r.current.kind ≠ .endOfSource) (rule : StartRule) :
    Same Onwards (startWith g sub rule) (startWith g sub' rule) r := by
  have bracketed {α : Type} (bracket : Bracket) {item item' : Parse α}
      (hitem : SameBelow n Onwards item item') (collect : List α → Shape Expr)
      (comprehend : α → List (Clause Expr) → Shape Expr) :
      Same Onwards (bracketed g sub bracket item collect comprehend)
        (bracketed g sub' bracket item' collect comprehend) r := by
    refine .advance hk hn fun t => .kind fun k => .ite ?_ (hitem.bind fun first => ?_)
    · exact .expect fun u => .spanFrom fun span => .node _ _
    refine .kind fun k => .ite ((clauseTurn_same hsub).many.bind fun cs => ?_)
      ((itemTurn_same bracket hitem).many.bind fun others => ?_)
    · exact .expect fun u => .spanFrom fun span => .node _ _
    · exact .expect fun u => .spanFrom fun span => .node _ _
  cases rule with
  | atom => exact atom_same
  | unary =>
    refine .advance hk hn fun t => ?_
    cases UnaryOp.ofKind? t.kind with
    | some op => exact (hsub _).bind fun operand => .node _ _
    | none => exact .unexpected t
  | group =>
    refine .advance hk hn fun t => .kind fun k => .ite ?_ ?_
    · exact .advance fun u => .spanFrom fun span => .node _ _
    · refine (commaList_same hsub _).bind fun inner => .expect fun u => .spanFrom fun span => ?_
      exact .pure _
  | list => exact bracketed _ (hsub _) _ _
  | dict => exact bracketed _ (entry_same hsub) _ _

theorem bound_same (hsub : ∀ p, SameBelow n Onwards (sub p) (sub' p)) :
    SameBelow n Freely (bound sub) (bound sub') := by
  refine .kind fun k => ?_
  split
  · exact .pure none
  · exact .pure none
  · exact (hsub _).some.freely

theorem subscriptRest_same (hsub : ∀ p, SameBelow n Onwards (sub p) (sub' p)) (left : Expr)
    (lower : Option Expr) : SameBelow n Freely (subscriptRest sub left lower)
      (subscriptRest sub' left lower) := by
  refine .kind fun k => .ite (.advance fun t => ?_) ?_
  · refine (bound_same hsub).bind fun upper => .kind fun k => .ite (.advance fun u => ?_) (.pure _)
    exact (bound_same hsub).bind fun step => .pure _
  · cases lower with
    | some key => exact .pure _
    | none => exact .unmet _

theorem subscriptShape_same (hsub : ∀ p, SameBelow n Onwards (sub p) (sub' p)) (left : Expr) :
    SameBelow n Freely (subscriptShape g sub left) (subscriptShape g sub' left) := by
  refine .kind fun k => .ite (subscriptRest_same hsub left none) ?_
  exact (commaList_same hsub _).bind fun key => subscriptRest_same hsub left (some key)

/-- However an expression goes on, the parts to come are read further on. -/
theorem continueWith_same (hsub : ∀ p, SameBelow n Onwards (sub p) (sub' p))
    (hn : r.remaining ≤ n) (hk : r.current.kind ≠ .endOfSource) (left : Expr) (p : Precedence)
    (rule : ContinueRule) :
    Same Onwards (continueWith g sub left p rule) (continueWith g sub' left p rule) r := by
  have right (op : BinaryOp) (p : Precedence) : SameBelow n Freely
      (sub p >>= fun right => binaryNode op left right)
      (sub' p >>= fun right => binaryNode op left right) :=
    (hsub p).bind fun right => .node _ _
  cases rule with
  | binary =>
    refine .advance hk hn fun t => ?_
    cases BinaryOp.ofKind? t.kind with
    | some op => exact right op p
    | none => exact .unexpected t
  | power => exact .advance hk hn fun t => right .power .unary
  | notIn => exact .advance hk hn fun t => .expectFor fun u => right .notIn p
  | conditional =>
    refine .advance hk hn fun t => (hsub _).bind fun condition => .expectFor fun u => ?_
    exact (hsub _).bind fun other => .node _ _
  | call =>
    refine .advance hk hn fun t => (argumentTurn_same hsub).many.bind fun arguments => ?_
    exact .expect fun u => .spanFrom fun span => .node _ _
  | subscript =>
    refine .advance hk hn fun t => (subscriptShape_same hsub left).bind fun shape => ?_
    exact .expect fun u => .spanFrom fun span => .node _ _
  | member => exact .advance hk hn fun t => .expectFor fun u => .spanFrom fun span => .node _ _

/-- A turn of the loop over operators. -/
theorem extend_same (hg : g.Solid) (hsub : ∀ p, SameBelow n Onwards (sub p) (sub' p))
    (least : Precedence) (left : Expr) :
    SameBelow (n + 1) InTurn (extend g sub least left) (extend g sub' least left) := by
  intro r hn
  refine .kind ?_
  cases hc : g.continues r.current.kind with
  | none => exact .stop
  | some found =>
    obtain ⟨p, rule⟩ := found
    have hk : r.current.kind ≠ .endOfSource :=
      TokenKind.ne_endOfSource_of_isSolid (hg.continues (by simp [hc]))
    simp only
    split
    · refine .map ((continueWith_same hsub (by omega) hk left p rule).mono ?_)
      exact fun _ _ _ hts _ => hts
    · exact .stop

/-- An expression depends on its parts only where fewer moves are left. -/
theorem expressionOf_same (hg : g.Solid) (hsub : ∀ p, SameBelow n Onwards (sub p) (sub' p))
    (least : Precedence) :
    SameBelow (n + 1) Onwards (expressionOf g sub least) (expressionOf g sub' least) := by
  intro r hn
  refine .kind ?_
  cases hs : g.starts r.current.kind with
  | none => exact .of_ensures (.unmet _)
  | some rule =>
    have hk : r.current.kind ≠ .endOfSource :=
      TokenKind.ne_endOfSource_of_isSolid (hg.starts (by simp [hs]))
    refine (startWith_same hsub (by omega) hk rule).bind fun ts first mid hp hts => ?_
    have hloop := SameBelow.iterate (extend_same hg hsub least) first mid
      (by have hremaining := hp.remaining; omega)
    exact hloop.mono fun us e r' _ => List.append_ne_nil_of_left_ne_nil hts us

/-- An expression whose parts are nested less than `n` deep, and at that depth are read by
`stuck`. -/
def nested (g : Grammar) (stuck : Precedence → Parse Expr) : Nat → Precedence → Parse Expr
  | 0 => stuck
  | n + 1 => expressionOf g (nested g stuck n)

end Parse

open Parse

/-- The guard of the recursion makes no difference: an expression is read by its rules from
expressions. -/
theorem expression_same {g : Grammar} (hg : g.Solid) (p : Precedence) (r : Reader) :
    Same Onwards (expression g p) (expressionOf g (expression g) p) r := by
  induction hn : r.remaining using Nat.strongRecOn generalizing r p with
  | ind n ih =>
    subst hn
    unfold Same
    rw [expression]
    refine expressionOf_same hg (fun p => ?_) p r (Nat.lt_succ_self _)
    exact .guarded (fun r' hlt => (ih _ hlt p r' rfl).ensures) _

theorem expression_onwards {g : Grammar} (hg : g.Solid) (p : Precedence) (r : Reader) :
    Ensures (expression g p) r Onwards :=
  (expression_same hg p r).ensures

/-- No expression is nested as deep as there are tokens, so what would be done at that depth makes
no difference. -/
theorem nested_same {g : Grammar} (hg : g.Solid) (stuck : Precedence → Parse Expr) (n : Nat) :
    ∀ p, SameBelow n Onwards (nested g stuck n p) (expression g p) := by
  induction n with
  | zero => exact fun p => .zero _ _
  | succ n ih =>
    intro p r hn hr
    obtain ⟨heq, hlands⟩ := expressionOf_same hg ih p r hn hr
    exact ⟨heq.trans (expression_same hg p r hr).1.symm, hlands⟩

end BuildTyping
