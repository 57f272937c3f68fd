import BuildTyping.Grammar.Statement
import BuildTyping.Proofs.Grammar.RoundTrip
import BuildTyping.Proofs.Syntax.Layout

/-!
# Simple statements are read back

A simple statement is read back from its words before any of its ends. A body that stands on the
line of its colon goes on for as long as its statements end at a semicolon, so what a reader has
just read is known too.
-/

namespace BuildTyping

/-- Only a normal parameter has a default. -/
def Parameter.Printable (p : Parameter) : Prop :=
  (∀ value ∈ p.default, value.Printable) ∧ (p.default.isSome = true → p.kind = .normal)

/-- The statement can be written when those within it can. Only an other body may be empty. -/
def Form.Printable {σ : Type} : Form σ → Prop
  | expression value => value.Printable
  | assign target value => target.Printable ∧ unassignable? target = none ∧ value.Printable
  | augment op target value =>
    target.Printable ∧ isAugmentable target = true ∧ op.assignSign?.isSome = true ∧
      value.Printable
  | define _ parameters body => (∀ p ∈ parameters, p.Printable) ∧ body.isEmpty = false
  | return_ value => ∀ e ∈ value, e.Printable
  | branch condition body _ => condition.Printable ∧ body.isEmpty = false
  | loop target iterable body =>
    target.Printable ∧ unassignable? target = none ∧ iterable.Printable ∧ body.isEmpty = false
  | pass | break_ | continue_ => True

instance : DecidablePred Parameter.Printable := fun _ => inferInstanceAs (Decidable (_ ∧ _))

instance {σ : Type} : DecidablePred (Form.Printable (σ := σ))
  | .expression _ => inferInstanceAs (Decidable (Expr.Printable _))
  | .return_ _ => inferInstanceAs (Decidable (∀ _ ∈ _, _))
  | .assign _ _ | .augment _ _ _ | .define _ _ _ | .branch _ _ _ | .loop _ _ _ =>
    inferInstanceAs (Decidable (_ ∧ _))
  | .pass | .break_ | .continue_ => .isTrue trivial

/-- Targets keep what can be assigned to them when ids and spans are left out. -/
theorem isAugmentable_bare (e : Expr) : isAugmentable e.bare = isAugmentable e := by
  obtain ⟨id, span, shape⟩ := e
  rw [Expr.bare_eq]
  cases shape <;> rfl

mutual

theorem unassignable?_bare : ∀ e : Expr, unassignable? e.bare = none ↔ unassignable? e = none
  | ⟨_, _, .name _⟩ | ⟨_, _, .member _ _⟩ | ⟨_, _, .index _ _⟩ | ⟨_, _, .slice _ _ _ _⟩ => by
    rw [Expr.bare_eq]
    exact Iff.rfl
  | ⟨_, _, .tuple elements⟩ | ⟨_, _, .list elements⟩ => by
    rw [Expr.bare_eq]
    exact unassignableIn?_bare elements
  | ⟨_, _, .literal _⟩ | ⟨_, _, .dict _⟩ | ⟨_, _, .listComp _ _⟩ | ⟨_, _, .dictComp _ _⟩
  | ⟨_, _, .call _ _⟩ | ⟨_, _, .binary _ _ _⟩ | ⟨_, _, .unary _ _⟩
  | ⟨_, _, .conditional _ _ _⟩ => by
    rw [Expr.bare_eq]
    simp [Shape.map, Shape.bare, unassignable?]

theorem unassignableIn?_bare : ∀ es : List Expr,
    unassignableIn? (es.map Expr.bare) = none ↔ unassignableIn? es = none
  | [] => by simp
  | e :: es => by
    simp only [List.map_cons, unassignableIn?, Option.or_eq_none_iff]
    rw [unassignable?_bare e, unassignableIn?_bare es]

end

/-- What can be assigned to is never an operation. -/
theorem Expr.power_lt_level {e : Expr} (h : unassignable? e = none) : .power < e.level := by
  obtain ⟨id, span, shape⟩ := e
  cases shape with
  | member | index | slice => exact (by decide : Precedence.power < .call)
  | name | tuple | list => exact (by decide : Precedence.power < .primary)
  | _ => simp [unassignable?] at h

namespace Parse

variable {r : Reader} {w : Word} {ws us rest : List Word} {e : Expr}

theorem expr_gives (h : e.Printable) (hr : r.words = e.words ++ w :: ws)
    (hw : Grammar.standard.precedence w.kind = .lowest) :
    Gives (expression .standard .lowest) r (fun e' => e'.bare = e.bare) (w :: ws) :=
  (Expr.complete h).gives_lowest (fun _ _ _ => rfl) (Nat.lt_succ_self _) hr hw

theorem exprList_gives (h : e.Printable) (hr : r.words = e.words ++ w :: ws)
    (hw : Grammar.standard.precedence w.kind = .lowest) (hc : w.kind ≠ .sign .comma) :
    Gives (exprList .standard (expression .standard)) r (fun e' => e'.bare = e.bare) (w :: ws) :=
  commaList_gives_one (expr_gives h hr hw) hc

/-- A target ends before `in`, which would go on with an expression. -/
theorem targetList_gives (h : e.Printable) (ht : unassignable? e = none)
    (hr : r.words = e.words ++ .keyword .in_ :: ws) :
    Gives (targetList .standard (expression .standard)) r (fun e' => e'.bare = e.bare)
      (.keyword .in_ :: ws) := by
  have hlevel := Expr.power_lt_level ht
  have hlt : Precedence.comparison < e.level :=
    Precedence.lt_of_lt_of_le (q := .power) (by decide) (Precedence.le_of_lt hlevel)
  refine commaList_gives_one ((Expr.complete h).gives (fun _ _ _ => rfl) (Nat.lt_succ_self _) hr
    (.inl hlt) (Precedence.le_reach_of_power_lt hlevel) (Nat.le_refl _)) (by simp [Word.keyword])

theorem checkTarget_gives {target : Expr} (hr : r.words = rest)
    (he : unassignable? e = none) (ht : target.bare = e.bare) :
    Gives (checkTarget target) r (fun _ => True) rest := by
  have hnone : unassignable? target = none := by
    rw [← unassignable?_bare, ht, unassignable?_bare, he]
  rw [checkTarget, hnone]
  exact .pure hr trivial

end Parse

namespace Reader

variable {r : Reader} {w : Word} {ws : List Word}

/-- Whether the token just read is a semicolon. -/
def afterSemicolon (r : Reader) : Bool := r.previous?.any fun t => t.kind = .sign .semicolon

theorem afterSemicolon_next (h : r.words = w :: ws) (hne : ws ≠ []) :
    r.next.afterSemicolon = decide (w.kind = .sign .semicolon) := by
  have hk := current_kind h
  simp only [words, ahead, List.map_cons, List.cons.injEq] at h
  obtain ⟨-, h⟩ := h
  unfold next
  split
  · rename_i hu
    simp [hu, eq_comm, hne] at h
  · simp [afterSemicolon, previous?, hk]

end Reader

namespace Layout

/-- The words begin with the end of a simple statement and go on with `rest`. The statement ends at
a semicolon if another one follows it on its line. -/
inductive Ending : List Word → Bool → List Word → Prop where
  | newline {rest : List Word} (ne : rest ≠ []) : Ending (.newline :: rest) false rest
  | closed {rest : List Word} (ne : rest ≠ []) :
      Ending (.sign .semicolon :: .newline :: rest) false rest
  | more {w : Word} {us : List Word} (hw : w.kind ≠ .newline) :
      Ending (.sign .semicolon :: w :: us) true (w :: us)

theorem Ending.head {us rest : List Word} {more : Bool} (h : Ending us more rest) :
    ∃ w ws, us = w :: ws ∧ (w = .newline ∨ w = .sign .semicolon) := by
  cases h with
  | newline => exact ⟨_, _, rfl, .inl rfl⟩
  | closed => exact ⟨_, _, rfl, .inr rfl⟩
  | more => exact ⟨_, _, rfl, .inr rfl⟩

end Layout

namespace Parse

open Layout

variable {r : Reader} {w : Word} {ws us rest : List Word} {more : Bool} {s : Stmt}

/-- The parse gives the statement, up to ids and spans, and leaves the words `rest`, just after a
semicolon or not. -/
def Closes (x : Parse Stmt) (r : Reader) (s : Stmt) (more : Bool) (rest : List Word) : Prop :=
  ∃ s' r', x r = .ok s' r' ∧ s'.bare = s.bare ∧ r'.words = rest ∧ r'.afterSemicolon = more

namespace Closes

theorem gives {x : Parse Stmt} (h : Closes x r s more rest) :
    Gives x r (fun s' => s'.bare = s.bare) rest := by
  obtain ⟨s', r', hx, hs, hr', -⟩ := h
  exact ⟨s', r', hx, hs, hr'⟩

theorem of_run {x y : Parse Stmt} (heq : x r = y r) (h : Closes y r s more rest) :
    Closes x r s more rest := by
  obtain ⟨s', r', hy, hclosed⟩ := h
  exact ⟨s', r', heq.trans hy, hclosed⟩

theorem bind {α : Type} {x : Parse α} {f : α → Parse Stmt} {P : α → Prop} {mid : List Word}
    (h : Gives x r P mid)
    (hf : ∀ a r', P a → r'.words = mid → Closes (f a) r' s more rest) :
    Closes (x >>= f) r s more rest := by
  obtain ⟨a, r', hx, hP, hr'⟩ := h
  obtain ⟨s', r'', hs, hclosed⟩ := hf a r' hP hr'
  exact ⟨s', r'', by rw [bind_of_ok hx, hs], hclosed⟩

/-- The end of the statement is the last thing read. -/
theorem ending {span : Span} {form : Form Stmt} (h : Ending us more rest) (hr : r.words = us)
    (hs : form.bare = s.form.bare) :
    Closes (do
      statementEnd
      return ⟨span, form⟩) r s more rest := by
  have hend : ∃ r', statementEnd r = .ok () r' ∧ r'.words = rest ∧ r'.afterSemicolon = more := by
    cases h with
    | newline ne =>
      refine ⟨r.next, ?_, Reader.words_next hr ne, Reader.afterSemicolon_next hr ne⟩
      rw [statementEnd, kind_bind_run, Reader.current_kind hr]
      rfl
    | closed ne =>
      have hr' := Reader.words_next hr (by simp)
      refine ⟨r.next.next, ?_, Reader.words_next hr' ne, Reader.afterSemicolon_next hr' ne⟩
      rw [statementEnd, kind_bind_run, Reader.current_kind hr]
      simp only [Word.sign, advance_bind_run, kind_bind_run, Reader.current_kind hr']
      rfl
    | more hw =>
      have hr' := Reader.words_next hr (by simp)
      refine ⟨r.next, ?_, hr', Reader.afterSemicolon_next hr (by simp)⟩
      rw [statementEnd, kind_bind_run, Reader.current_kind hr]
      simp only [Word.sign, advance_bind_run, kind_bind_run, Reader.current_kind hr', hw, if_false]
      rfl
  obtain ⟨r', hend, hr', hmore⟩ := hend
  exact ⟨_, r', by rw [bind_of_ok hend]; rfl, by rw [Stmt.bare_eq, Stmt.bare_eq, hs], hr', hmore⟩

end Closes

theorem get_gives (hr : r.words = rest) : Gives (get : Parse Reader) r (fun _ => True) rest :=
  ⟨r, r, rfl, trivial, hr⟩

theorem spanFrom_gives {start : Position} (hr : r.words = rest) :
    Gives (spanFrom start) r (fun _ => True) rest :=
  ⟨_, r, rfl, trivial, hr⟩

theorem kind_gives (hr : r.words = w :: ws) : Gives kind r (fun k => k = w.kind) (w :: ws) :=
  ⟨_, r, rfl, Reader.current_kind hr, hr⟩

theorem advance_gives (hr : r.words = w :: ws) (hne : ws ≠ []) :
    Gives advance r (fun t => t.word = w) ws :=
  ⟨_, _, rfl, Reader.current_word hr, Reader.words_next hr hne⟩

/-- On fewer than `n` words the statements within are read by the standard grammar. -/
structure KnowsStatements (stmt elif : Parse Stmt) (n : Nat) : Prop where
  statement : ∀ r : Reader, r.words.length < n → stmt r = BuildTyping.statement .standard r
  branch : ∀ r : Reader, r.words.length < n → elif r = statementBy .standard (some .branch) r

/-- The readers of statements within a statement know all that is shorter. -/
theorem exists_knowsStatements (r : Reader) : ∃ stmt elif,
    KnowsStatements stmt elif r.words.length ∧ ∀ rule,
      statementBy .standard rule r =
        statementOf .standard (expression .standard) stmt elif rule r := by
  refine ⟨fun r' => if r'.remaining < r.remaining then
      statementBy .standard (Grammar.standard.statements r'.current.kind) r'
    else unmet "expected a statement" r', fun r' => if r'.remaining < r.remaining then
      statementBy .standard (some .branch) r'
    else unmet "expected a statement" r', ⟨?_, ?_⟩, ?_⟩
  · intro r' h
    rw [Reader.words_length, Reader.words_length] at h
    simp only [show r'.remaining < r.remaining by omega, if_true]
    rfl
  · intro r' h
    rw [Reader.words_length, Reader.words_length] at h
    simp only [show r'.remaining < r.remaining by omega, if_true]
  · intro rule
    rw [statementBy]

/-- A statement is read by the rule that its first word begins. -/
theorem exists_statementOf {rule : Option StatementRule} (hr : r.words = w :: ws)
    (hw : Grammar.standard.statements w.kind = rule) : ∃ stmt elif,
    KnowsStatements stmt elif r.words.length ∧ statement .standard r =
      statementOf .standard (expression .standard) stmt elif rule r := by
  obtain ⟨stmt, elif, hknows, heq⟩ := exists_knowsStatements r
  refine ⟨stmt, elif, hknows, ?_⟩
  rw [statement, Reader.current_kind hr, hw, heq]

/-- What starts an expression begins no other statement. -/
theorem statements_of_starts {kind : TokenKind}
    (h : (Grammar.standard.starts kind).isSome = true) :
    Grammar.standard.statements kind = none := by
  cases kind with
  | keyword word =>
    cases word <;> first | rfl | simp [Grammar.standard, Grammar.standardStarts] at h
  | _ => rfl

theorem ending_lowest (hw : w = .newline ∨ w = .sign .semicolon) :
    Grammar.standard.precedence w.kind = .lowest ∧ w.kind ≠ .sign .comma := by
  rcases hw with rfl | rfl
  · exact ⟨rfl, by simp [Word.newline]⟩
  · exact ⟨rfl, by simp [Word.sign]⟩

section Simple

variable {first' : Expr}

/-- After its first expression an expression ends. -/
theorem simpleForm_gives_expression (he : Ending us more rest) (hr : r.words = us) :
    Gives (simpleForm .standard (expression .standard) first') r
      (fun form => form = .expression first') us := by
  obtain ⟨w, ws, rfl, rfl | rfl⟩ := he.head
  · exact .kind hr (.pure hr rfl)
  · exact .kind hr (.ite_neg (by simp) (.ite_neg (by simp [Sign.isAugmented]) (.pure hr rfl)))

theorem simpleForm_gives_assign {target value : Expr} (he : Ending us more rest)
    (hr : r.words = .sign .assign :: (value.words ++ us)) (hv : value.Printable)
    (ht : unassignable? target = none) (hfirst : first'.bare = target.bare) :
    Gives (simpleForm .standard (expression .standard) first') r
      (fun form => form.bare = (Form.assign target value).bare) us := by
  obtain ⟨w, ws, rfl, hw⟩ := he.head
  obtain ⟨hlowest, hcomma⟩ := ending_lowest hw
  refine .kind hr (.ite_pos rfl (.advance hr (by simp) fun _ r1 _ hr1 => ?_))
  refine (checkTarget_gives hr1 ht hfirst).bind fun _ r2 _ hr2 => ?_
  exact (exprList_gives hv hr2 hlowest hcomma).bind fun value' r3 hvalue hr3 =>
    .pure hr3 (by simp [Form.bare, hfirst, hvalue])

theorem simpleForm_gives_augment {op : BinaryOp} {sign : Sign} {target value : Expr}
    (he : Ending us more rest) (hr : r.words = .sign sign :: (value.words ++ us))
    (hop : op.assignSign? = some sign) (hv : value.Printable)
    (ht : isAugmentable target = true) (hfirst : first'.bare = target.bare) :
    Gives (simpleForm .standard (expression .standard) first') r
      (fun form => form.bare = (Form.augment op target value).bare) us := by
  obtain ⟨w, ws, rfl, hw⟩ := he.head
  obtain ⟨hlowest, hcomma⟩ := ending_lowest hw
  obtain ⟨hassign, haug, hsign⟩ : sign ≠ .assign ∧ sign.isAugmented = true ∧
      BinaryOp.ofKind? (.sign sign) = some op := by
    cases op <;> cases hop <;> decide
  have htarget : isAugmentable first' = true := by
    rw [← isAugmentable_bare, hfirst, isAugmentable_bare, ht]
  refine .kind hr (.ite_neg hassign (.ite_pos haug ?_))
  refine .advance hr (by simp) fun t r1 htoken hr1 => ?_
  have hkind : BinaryOp.ofKind? t.kind = some op :=
    (congrArg (fun u => BinaryOp.ofKind? u.kind) htoken).trans hsign
  simp only [hkind]
  refine .ite_pos htarget ?_
  exact (exprList_gives hv hr1 hlowest hcomma).bind fun value' r2 hvalue hr2 =>
    .pure hr2 (by simp [Form.bare, hfirst, hvalue])

/-- An expression or an assignment, of which the first expression and the rest are read back. -/
theorem simple_closes {first : Expr} (hfirst : first.Printable) (he : Ending us more rest)
    (hr : r.words = first.words ++ w :: ws)
    (hw : Grammar.standard.precedence w.kind = .lowest) (hc : w.kind ≠ .sign .comma)
    (hform : ∀ first' (r' : Reader), first'.bare = first.bare → r'.words = w :: ws →
      Gives (simpleForm .standard (expression .standard) first') r'
        (fun form => form.bare = s.form.bare) us) :
    Closes (statement .standard) r s more rest := by
  obtain ⟨v, vs, hv, hstart, -⟩ := first.opens
  have hr' : r.words = v :: (vs ++ w :: ws) := by rw [hr, hv, List.cons_append]
  obtain ⟨stmt, elif, -, heq⟩ := exists_statementOf hr' (statements_of_starts hstart)
  refine .of_run heq (.bind (get_gives hr) fun _ r1 _ hr1 => ?_)
  refine .bind (exprList_gives hfirst hr1 hw hc) fun first' r2 hbare hr2 => ?_
  refine .bind (hform first' r2 hbare hr2) fun form r3 hform hr3 => ?_
  exact .bind (spanFrom_gives hr3) fun span r4 _ hr4 => .ending he hr4 hform

end Simple

theorem return_closes {value : Option Expr} (hv : ∀ e ∈ value, e.Printable)
    (he : Ending us more rest) (hs : s.form = .return_ value)
    (hr : r.words = .keyword .return_ :: (value.elim [] Expr.words ++ us)) :
    Closes (statement .standard) r s more rest := by
  obtain ⟨w, ws, hus, hw⟩ := he.head
  obtain ⟨stmt, elif, -, heq⟩ := exists_statementOf hr rfl
  refine .of_run heq (.bind (advance_gives hr (by simp [hus])) fun t r1 _ hr1 => ?_)
  have finish {x : Parse (Option Expr)} {r2 : Reader}
      (h : Gives x r2 (fun value' => value'.map Expr.bare = value.map Expr.bare) us) :
      Closes (do
        let value' ← x
        let span ← spanFrom t.span.start
        statementEnd
        return ⟨span, .return_ value'⟩) r2 s more rest := by
    refine .bind h fun value' r3 hbare hr3 => .bind (spanFrom_gives hr3) fun _ r4 _ hr4 => ?_
    exact .ending he hr4 (by rw [hs, Form.bare, Form.bare, hbare])
  subst hus
  cases value with
  | none =>
    refine .bind (kind_gives hr1) fun k r2 hk hr2 => ?_
    rcases hw with rfl | rfl <;> (subst hk; exact finish (.pure hr2 rfl))
  | some e =>
    obtain ⟨hlowest, hcomma⟩ := ending_lowest hw
    obtain ⟨v, vs, hv', hstart, -⟩ := e.opens
    have hr1' : r1.words = v :: (vs ++ w :: ws) := by
      rw [hr1, Option.elim_some, hv', List.cons_append]
    refine .bind (kind_gives hr1') fun k r2 hk hr2 => ?_
    subst hk
    have hr2' : r2.words = e.words ++ w :: ws := by rw [hr2, hv', List.cons_append]
    have hsome : Gives (some <$> exprList .standard (expression .standard)) r2
        (fun value' => value'.map Expr.bare = (some e).map Expr.bare) (w :: ws) :=
      (exprList_gives (hv e rfl) hr2' hlowest hcomma).map fun e' h => by simp [h]
    have hread := finish hsome
    split
    · exact absurd ‹_› (ne_of_starts hstart rfl)
    · exact absurd ‹_› (ne_of_starts hstart rfl)
    · exact absurd ‹_› (ne_of_starts hstart rfl)
    · exact absurd ‹_› (ne_of_starts hstart rfl)
    · exact hread

/-- A simple statement is read back before its end. -/
theorem statement_closes (hs : s.form.simple? = some ws) (hp : s.form.Printable)
    (he : Ending us more rest) (hr : r.words = ws ++ us) :
    Closes (statement .standard) r s more rest := by
  obtain ⟨w, vs, hus, hw⟩ := he.head
  obtain ⟨hlowest, hcomma⟩ := ending_lowest hw
  obtain ⟨span, form⟩ := s
  cases form with
  | expression value =>
    cases hs
    rw [hus] at hr
    refine simple_closes hp he hr hlowest hcomma fun first' r' hbare hr' => ?_
    refine (simpleForm_gives_expression he (hr'.trans hus.symm)).mono ?_
    rintro form rfl
    simp [Form.bare, hbare]
  | assign target value =>
    obtain ⟨htarget, hassignable, hvalue⟩ := hp
    cases hs
    rw [List.append_assoc, List.cons_append] at hr
    exact simple_closes htarget he hr rfl (by simp [Word.sign]) fun first' r' hbare hr' =>
      simpleForm_gives_assign he hr' hvalue hassignable hbare
  | augment op target value =>
    obtain ⟨htarget, haugmentable, -, hvalue⟩ := hp
    obtain ⟨sign, hsign, rfl⟩ := Option.map_eq_some_iff.1 hs
    rw [List.append_assoc, List.cons_append] at hr
    have hlowest' : Grammar.standard.precedence (.sign sign) = .lowest ∧ sign ≠ .comma := by
      cases op <;> cases hsign <;> decide
    exact simple_closes htarget he hr hlowest'.1 (by simp [Word.sign, hlowest'.2])
      fun first' r' hbare hr' => simpleForm_gives_augment he hr' hsign hvalue haugmentable hbare
  | return_ value =>
    cases hs
    exact return_closes hp he rfl hr
  | pass | break_ | continue_ =>
    cases hs
    obtain ⟨stmt, elif, -, heq⟩ := exists_statementOf hr rfl
    refine .of_run heq (.bind (advance_gives hr (by simp [hus])) fun t r1 ht hr1 => ?_)
    have hkind := congrArg Word.kind ht
    simp only [Token.word] at hkind
    simp only [hkind]
    exact .ending he hr1 rfl
  | define | branch | loop => cases hs

end Parse

end BuildTyping
