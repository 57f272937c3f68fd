import BuildTyping.Proofs.Grammar.Points
import BuildTyping.Proofs.Grammar.Statement
import BuildTyping.Proofs.Syntax.Assignable

/-!
# Faults of statements point at tokens

Where a target can not be assigned to, the fault lies at the start of a part of it, which is where
a token starts as well. The targets that are not faulted can be assigned to.
-/

namespace BuildTyping

variable {T : List Token}

namespace Parse

theorem Points.startsIn {x : Parse Expr} (h : Points T x Any) (hx : Reads x) :
    Points T x (Expr.StartsIn · T) := by
  intro r hr
  have hpoints := h r hr
  cases hrun : x r with
  | ok e r' =>
    rw [hrun] at hpoints
    obtain ⟨ts, hp, htree⟩ := (hx hr.ended hrun).tree
    refine ⟨hpoints.1, htree.startsIn.mono fun t ht => hr.ahead ?_⟩
    rw [hp.ahead]
    exact List.mem_append_left _ ht
  | error fault r' =>
    rw [hrun] at hpoints
    exact hpoints

theorem checkTarget_points {target : Expr} (h : target.StartsIn T) :
    Points T (checkTarget target) fun _ => target.Assignable := by
  unfold checkTarget
  cases hu : unassignable? target with
  | some part => exact .throw (h part (unassignable?_mem_nodes hu))
  | none => exact .pure (assignable_of_unassignable? hu)

theorem statementEnd_points : Points T statementEnd Any := by
  refine .kind fun k => ?_
  split
  · exact .advance fun _ _ => .kind fun _ => .ite (.advance fun _ _ => .pure trivial)
      (.pure trivial)
  · exact .advance fun _ _ => .pure trivial
  · exact .pure trivial
  · exact .pure trivial
  · exact .unmet _

section Parts

variable {g : Grammar} {expr : Precedence → Parse Expr} (hexpr : ∀ p, Points T (expr p) Any)

include hexpr

theorem simpleForm_points {first : Expr} (hfirst : first.StartsIn T) :
    Points T (simpleForm g expr first) fun form => form.Assigns ∧ form.bodies = [] := by
  have expression : (Form.expression first : Form Stmt).Assigns :=
    .of_none rfl fun _ _ _ => by simp
  refine .kind fun k => ?_
  split
  · refine .ite (.advance fun _ _ => ?_) (.ite (.advance fun t ht => ?_) (.pure ⟨expression, rfl⟩))
    · refine (checkTarget_points hfirst).bind fun _ htarget => ?_
      exact (commaList_points hexpr _).bind fun value _ => .pure ⟨.of_target rfl htarget, rfl⟩
    · cases BinaryOp.ofKind? t.kind with
      | none => exact .unexpected ht
      | some op =>
        simp only
        split
        · rename_i haug
          exact (commaList_points hexpr _).bind fun value _ =>
            .pure ⟨.augment (augmentable_of_isAugmentable haug), rfl⟩
        · refine .throw (hfirst first ?_)
          rw [Expr.nodes_eq]
          exact List.mem_cons_self
  · exact .pure ⟨expression, rfl⟩

theorem simple_points (hreads : ∀ p, Reads (expr p)) : Points T (simple g expr) Stmt.Assigns := by
  have hlist : Points T (exprList g expr) (Expr.StartsIn · T) :=
    (commaList_points hexpr _).startsIn (exprList_reads hreads)
  refine .get fun r _ => hlist.bind fun first hfirst => ?_
  refine (simpleForm_points hexpr hfirst).bind fun form ⟨hform, hbodies⟩ => .spanFrom fun span => ?_
  exact statementEnd_points.bind fun _ _ => .pure (.of_bodies hform (by simp [hbodies]))

theorem parameter_points : Points T (parameter expr) Any := by
  have hkind : Points T parameterKind Any := by
    refine .kind fun k => ?_
    split
    · exact .advance fun _ _ => .pure trivial
    · exact .advance fun _ _ => .pure trivial
    · exact .pure trivial
  have hdefault : Points T (default? expr) Any :=
    .kind fun _ => .ite (.advance fun _ _ => .map (hexpr _)) (.pure trivial)
  refine .get fun r _ => hkind.bind fun paramKind _ => .kind fun k => .ite ?_ ?_
  · exact .kind fun _ => .ite (.advance fun _ _ => .pure trivial) (.pure trivial)
  · refine .expectFor fun name _ => ?_
    have finish {value : Parse (Option Expr)} (hvalue : Points T value Any) :
        Points T (value >>= fun value => spanFrom r.current.span.start >>= fun span =>
          separator "expected `,` or `)` in parameter list" >>= fun _ =>
            pure (some (⟨name.value, paramKind, value, span⟩ : Parameter))) Any :=
      hvalue.bind fun _ _ => .spanFrom fun _ => (separator_points _).bind fun _ _ => .pure trivial
    split
    · exact finish hdefault
    · exact finish (.pure trivial)

end Parts

section Bodies

variable {g : Grammar} {expr : Precedence → Parse Expr} {stmt : Parse Stmt}
  (hstmt : Points T stmt Stmt.Assigns)

include hstmt

theorem body_points : Points T (body stmt) fun ss => ∀ s ∈ ss, s.Assigns := by
  have some_stmt : Points T (some <$> stmt) fun o => ∀ s ∈ o, s.Assigns :=
    .map (hstmt.mono fun s hs _ he => by cases he; exact hs)
  have hblock : Points T (blockTurn stmt) fun o => ∀ s ∈ o, s.Assigns := by
    simp only [blockTurn, inBody, bind_assoc, pure_bind]
    exact .kind fun _ => .ite some_stmt (.pure (by simp))
  have hinline : Points T (inlineTurn stmt) fun o => ∀ s ∈ o, s.Assigns := by
    simp only [inlineTurn, inBody, bind_assoc, pure_bind]
    exact .get fun _ _ => .kind fun _ => .ite some_stmt (.pure (by simp))
  refine .expectFor fun _ _ => .kind fun _ => .ite (.advance fun _ _ => .expectFor fun _ _ => ?_) ?_
  · exact hblock.many.bind fun ss hss => .expect fun _ _ => .pure hss
  · exact hstmt.bind fun s hs => hinline.many.bind fun ss hss =>
      .pure (List.forall_mem_cons.2 ⟨hs, hss⟩)

theorem otherwise_points {elif : Parse Stmt} (helif : Points T elif Stmt.Assigns) :
    Points T (otherwise stmt elif) fun ss => ∀ s ∈ ss, s.Assigns := by
  refine .kind fun k => ?_
  split
  · exact helif.bind fun s hs => .pure (by simpa using hs)
  · exact .advance fun _ _ => body_points hstmt
  · exact .pure (by simp)

theorem statementOf_points (hexpr : ∀ p, Points T (expr p) Any) (hreads : ∀ p, Reads (expr p))
    {elif : Parse Stmt} (helif : Points T elif Stmt.Assigns) (rule : Option StatementRule) :
    Points T (statementOf g expr stmt elif rule) Stmt.Assigns := by
  have plain {form : Form Stmt} (htargets : form.targets = []) (hbodies : form.bodies = [])
      (h : ∀ op target value, form ≠ .augment op target value) (span : Span) :
      Stmt.Assigns ⟨span, form⟩ := .of_bodies (.of_none htargets h) (by simp [hbodies])
  cases rule with
  | none => exact simple_points hexpr hreads
  | some rule =>
    cases rule with
    | define =>
      have hturn : Points T (parameterTurn expr) Any :=
        .kind fun _ => .ite (.pure trivial) (.map (parameter_points hexpr))
      refine .advance fun _ _ => .expectFor fun _ _ => .expect fun _ _ => ?_
      refine hturn.many_any.bind fun _ _ => .expect fun _ _ => ?_
      exact (body_points hstmt).bind fun ss hss => .spanFrom fun _ =>
        .pure (.of_bodies (.of_none rfl (by simp)) hss)
    | return_ =>
      have finish (t : Token) {value : Parse (Option Expr)} (hvalue : Points T value Any) :
          Points T (value >>= fun value => spanFrom t.span.start >>= fun span =>
            statementEnd >>= fun _ => pure (⟨span, .return_ value⟩ : Stmt)) Stmt.Assigns :=
        hvalue.bind fun _ _ => .spanFrom fun span => statementEnd_points.bind fun _ _ =>
          .pure (plain rfl rfl (by simp) span)
      refine .advance fun t _ => .kind fun k => ?_
      simp only
      split
      case h_5 => exact finish t (.map (commaList_points hexpr _))
      all_goals exact finish t (.pure trivial)
    | branch =>
      rw [statementOf, branch_eq]
      refine .advance fun _ _ => (hexpr _).bind fun _ _ => ?_
      refine (body_points hstmt).bind fun ss hss => ?_
      refine (otherwise_points hstmt helif).bind fun other hother => .spanFrom fun _ => ?_
      exact .pure (.of_bodies (.of_none rfl (by simp)) (List.forall_mem_append.2 ⟨hss, hother⟩))
    | loop =>
      have htargets : Points T (targetList g expr) (Expr.StartsIn · T) :=
        (commaList_points hexpr _).startsIn (targetList_reads hreads)
      refine .advance fun _ _ => htargets.bind fun target hstarts => ?_
      refine (checkTarget_points hstarts).bind fun _ htarget => .expectFor fun _ _ => ?_
      refine (commaList_points hexpr _).bind fun _ _ => (body_points hstmt).bind fun ss hss => ?_
      exact .spanFrom fun _ => .pure (.of_bodies (.of_target rfl htarget) hss)
    | word =>
      refine .advance fun t ht => ?_
      simp only
      split
      case h_4 => exact .unexpected ht
      all_goals
        exact statementEnd_points.bind fun _ _ => .pure (plain rfl rfl (by simp) _)

end Bodies

end Parse

open Parse

variable {g : Grammar}

theorem statementBy_points (hg : g.Solid) (rule : Option StatementRule) :
    Points T (statementBy g rule) Stmt.Assigns := by
  intro r
  induction hn : r.remaining using Nat.strongRecOn generalizing r rule with
  | ind n ih =>
    subst hn
    have guarded (rule' : Reader → Option StatementRule) :
        Points T (fun r' => if r'.remaining < r.remaining then statementBy g (rule' r') r'
          else unmet "expected a statement" r') Stmt.Assigns := by
      intro r' hr'
      by_cases hlt : r'.remaining < r.remaining
      · simp only [if_pos hlt]
        exact ih _ hlt _ r' rfl hr'
      · simp only [if_neg hlt]
        exact hr'.unmet _
    rw [statementBy]
    exact statementOf_points (guarded fun r' => g.statements r'.current.kind)
      (expression_points g) (expression_reads hg) (guarded fun _ => some .branch) rule r

theorem statement_points (hg : g.Solid) : Points T (statement g) Stmt.Assigns :=
  fun r => statementBy_points hg _ r

theorem program_points (hg : g.Solid) (file : String) :
    Points T (program g file) fun p => ∀ s ∈ p.body, s.Assigns := by
  have hturn : Points T (programTurn g) fun o => ∀ s ∈ o, s.Assigns :=
    .get fun _ _ => .ite
      (.map ((statement_points hg).mono fun s hs _ he => by cases he; exact hs)) (.pure (by simp))
  exact hturn.many.bind fun ss hss => .get fun _ _ => .pure hss

namespace Program

/-- Whatever tokens a program is read from, the targets of its assignments and loops can be assigned
to, and an augmented assignment has a name, an attribute or an index. The targets of comprehensions
are not looked at, so all targets can be assigned to exactly when those can. -/
theorem assigns_of_ofTokens {ts : List Token} {file : String} {p : Program} {r : Reader}
    (h : ofTokens ts file = .ok p r) :
    (∀ s ∈ p.stmts, ∀ target ∈ s.form.targets, target.Assignable) ∧
    (∀ s ∈ p.stmts, ∀ op target value, s.form = .augment op target value → target.Augmentable) ∧
    ((∀ target ∈ p.targets, target.Assignable) ↔
      ∀ e ∈ p.nodes, ∀ target ∈ e.shape.targets, target.Assignable) := by
  have hpoints := program_points Grammar.standard_solid file (Reader.start ts file)
    ⟨Reader.ended_start ts file, List.Subset.refl _⟩
  rw [ofTokens] at h
  rw [h] at hpoints
  have hassigns : ∀ s ∈ p.stmts, s.form.Assigns := by
    intro s hs
    obtain ⟨outer, houter, hs⟩ := List.mem_flatMap.1 hs
    exact hpoints.2 outer houter s hs
  refine ⟨fun s hs => (hassigns s hs).targets, fun s hs => (hassigns s hs).augmented, ?_⟩
  constructor
  · exact fun hall e he target ht =>
      hall target (List.mem_append_right _ (List.mem_flatMap.2 ⟨e, he, ht⟩))
  · intro hcomprehensions target ht
    rcases List.mem_append.1 ht with ht | ht
    · obtain ⟨s, hs, ht⟩ := List.mem_flatMap.1 ht
      exact (hassigns s hs).targets target ht
    · obtain ⟨e, he, ht⟩ := List.mem_flatMap.1 ht
      exact hcomprehensions e he target ht

theorem assigns_of_ofTokens_loop :
    let source := "for (x, a.b) in y:\n  x[0] += 1\n  [x, c[1:2]] = [z for z in y]\n".toList
    ∃ ts p r, tokens source "BUILD" = .ok ts ∧ ofTokens ts "BUILD" = .ok p r ∧
      p.targets.length = 3 ∧ (∀ target ∈ p.targets, target.Assignable) ∧
      (∀ s ∈ p.stmts, ∀ op target value, s.form = .augment op target value →
        target.Augmentable) := by
  intro source
  have hrun : (ofSource source "BUILD").toOption.map (fun p => decide (p.targets.length = 3 ∧
      ∀ e ∈ p.nodes, ∀ target ∈ e.shape.targets, target.Assignable)) = some true := by
    decide +kernel
  cases hp : ofSource source "BUILD" with
  | error fault => simp [hp, Except.toOption] at hrun
  | ok p =>
    obtain ⟨hlength, hcomprehensions⟩ : p.targets.length = 3 ∧
        ∀ e ∈ p.nodes, ∀ target ∈ e.shape.targets, target.Assignable := by
      simpa [hp, Except.toOption] using hrun
    obtain ⟨ts, r, hts, hp⟩ := ofSource_ok.1 hp
    have hassigns := assigns_of_ofTokens hp
    exact ⟨ts, p, r, hts, hp, hlength, hassigns.2.2.2 hcomprehensions, hassigns.2.1⟩

/-- In `[x for 1 in y]` the target of the loop can not be assigned to. -/
theorem targets_assignable_not :
    let source := "[x for 1 in y]\n".toList
    ∃ ts p r, tokens source "BUILD" = .ok ts ∧ ofTokens ts "BUILD" = .ok p r ∧
      ∃ target ∈ p.targets, ¬ target.Assignable := by
  intro source
  have hrun : (ofSource source "BUILD").toOption.map (fun p =>
      decide (∃ target ∈ p.targets, ¬ target.Assignable)) = some true := by decide +kernel
  cases hp : ofSource source "BUILD" with
  | error fault => simp [hp, Except.toOption] at hrun
  | ok p =>
    obtain ⟨ts, r, hts, hread⟩ := ofSource_ok.1 hp
    exact ⟨ts, p, r, hts, hread, by simpa [hp, Except.toOption] using hrun⟩

end Program

end BuildTyping
