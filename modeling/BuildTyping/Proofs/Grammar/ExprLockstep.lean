import BuildTyping.Grammar.Expression
import BuildTyping.Proofs.Grammar.Lockstep

/-!
# Expressions side by side

Two parses of an expression from readers that are together agree: no expression goes past the end
of a line.
-/

namespace BuildTyping

namespace Parse

open Reader

variable {α : Type} {F : Fork} {sub sub' : Precedence → Parse Expr} {r q : Reader}

/-- A string or the end of a line starts no expression but a literal. -/
theorem isPlain_of_starts {kind : TokenKind} {rule : StartRule}
    (h : Grammar.standard.starts kind = some rule) (hne : rule ≠ .atom) : kind.isPlain = true := by
  cases kind <;> simp_all [Grammar.standard, Grammar.standardStarts, TokenKind.isPlain]

theorem isPlain_of_continues {kind : TokenKind}
    (h : (Grammar.standard.continues kind).isSome = true) : kind.isPlain = true := by
  cases kind <;> simp_all [Grammar.standard, Grammar.standardContinues, TokenKind.isPlain]

theorem Meets.atStart {β : Type} {R : β → Reader → β → Reader → Prop} {g : Grammar}
    {f f' : Bool → Parse β} (h : F.Together r q)
    (hf : ∀ starts, Meets R (f starts) r (f' starts) q) :
    Meets R (atStart g >>= f) r (atStart g >>= f') q := by
  simp only [Parse.atStart, bind_assoc, pure_bind]
  exact .kind h (hf _)

theorem commaList_keeps (hsub : ∀ p, Keeps F (sub p) (sub' p)) (p : Precedence) :
    Keeps F (commaList .standard sub p) (commaList .standard sub' p) := by
  intro r q h hf
  refine (hsub p h hf).bind fun first r1 q1 h1 =>
    .kind h1 (.ite (fun _ => ?_) fun _ => Agrees.pure h1)
  refine Agrees.bind (.many ?_ h1) fun others r2 q2 h2 => .spanFrom h2 fun span => Agrees.node h2
  intro r2 q2 h2
  refine .kind h2 (.ite (fun hk => ?_) fun _ => Agrees.pure h2)
  refine .advance h2 (by rw [hk]; rfl) fun h3 hf3 => .atStart h3 fun starts => ?_
  exact .ite (fun _ => (hsub p h3 hf3).map) fun _ => Agrees.pure h3

theorem exprList_keeps (hsub : ∀ p, Keeps F (sub p) (sub' p)) :
    Keeps F (exprList .standard sub) (exprList .standard sub') := commaList_keeps hsub _

theorem targetList_keeps (hsub : ∀ p, Keeps F (sub p) (sub' p)) :
    Keeps F (targetList .standard sub) (targetList .standard sub') := commaList_keeps hsub _

/-- No other rule reads a string. As the reader is fresh it does not follow another one. -/
theorem atom_keeps : Keeps F atom atom := by
  intro r q h hf
  refine .get ?_
  rw [h.current]
  have leaf (hk : r.current.kind ≠ .newline) (shape : Shape Expr) :
      Agrees F (advance >>= fun _ => node r.current.span shape) r
        (advance >>= fun _ => node r.current.span shape) q := by
    intro e r' e' q' hx hy
    rw [advance_bind_run] at hx hy
    exact Agrees.node (h.next hf hk) hx hy
  cases hk : r.current.kind with
  | int =>
    simp only [hk]
    cases Integer.read? r.current.value.toList with
    | some n => exact leaf (by simp [hk]) _
    | none => exact .throw
  | float =>
    simp only [hk]
    cases Binary64.read? r.current.value.toList with
    | some x => exact leaf (by simp [hk]) _
    | none => exact .throw
  | string | identifier =>
    simp only [hk]
    exact leaf (by simp [hk]) _
  | keyword word =>
    cases word with
    | true_ | false_ | none_ =>
      simp only [hk]
      exact leaf (by simp [hk]) _
    | _ =>
      simp only [hk]
      exact .unmet
  | _ =>
    simp only [hk]
    exact .unmet

theorem unary_keeps (hsub : ∀ p, Keeps F (sub p) (sub' p)) (h : F.Together r q)
    (hk : r.current.kind.isPlain = true) : Agrees F (unary sub) r (unary sub') q := by
  refine .advance h hk fun h1 hf1 => ?_
  cases UnaryOp.ofKind? r.current.kind with
  | none => exact .unexpected
  | some op => exact (hsub _ h1 hf1).bind fun operand r2 q2 h2 => Agrees.node h2

theorem group_keeps (hsub : ∀ p, Keeps F (sub p) (sub' p)) (h : F.Together r q)
    (hk : r.current.kind.isPlain = true) :
    Agrees F (group .standard sub) r (group .standard sub') q := by
  refine .advance h hk fun h1 hf1 => .kind h1 (.ite (fun hc => ?_) fun _ => ?_)
  · exact .advance h1 (by rw [hc]; rfl) fun h2 _ => .spanFrom h2 fun span => Agrees.node h2
  · refine (exprList_keeps hsub h1 hf1).bind fun inner r2 q2 h2 => .expect h2 rfl fun h3 _ => ?_
    exact .spanFrom h3 fun span => Agrees.pure h3

theorem clauses_keeps (hsub : ∀ p, Keeps F (sub p) (sub' p)) (h : F.Together r q) :
    Agrees F (clauses .standard sub) r (clauses .standard sub') q := by
  refine .many (fun r q h => .kind h ?_) h
  cases hk : r.current.kind with
  | keyword word =>
    cases word with
    | for_ =>
      refine .advance h (by rw [hk]; rfl) fun h1 hf1 => ?_
      refine (targetList_keeps hsub h1 hf1).bind fun target r2 q2 h2 => ?_
      refine .expect h2 rfl fun h3 hf3 => ?_
      exact (hsub _ h3 hf3).bind fun iterable r4 q4 h4 => Agrees.pure h4
    | if_ =>
      refine .advance h (by rw [hk]; rfl) fun h1 hf1 => ?_
      exact (hsub _ h1 hf1).bind fun condition r2 q2 h2 => Agrees.pure h2
    | _ => exact Agrees.pure h
  | _ => exact Agrees.pure h

theorem bracketed_keeps (hsub : ∀ p, Keeps F (sub p) (sub' p)) {bracket : Bracket}
    {item item' : Parse α} (hitem : Keeps F item item') {collect : List α → Shape Expr}
    {comprehend : α → List (Clause Expr) → Shape Expr} (h : F.Together r q)
    (hk : r.current.kind.isPlain = true) :
    Agrees F (bracketed .standard sub bracket item collect comprehend) r
      (bracketed .standard sub' bracket item' collect comprehend) q := by
  have close {start : Position} {shape : Shape Expr} {r q : Reader} (h : F.Together r q) :
      Agrees F (expect (.closing bracket) >>= fun _ => spanFrom start >>= fun span =>
        node span shape) r (expect (.closing bracket) >>= fun _ => spanFrom start >>= fun span =>
        node span shape) q :=
    .expect h rfl fun h1 _ => .spanFrom h1 fun span => Agrees.node h1
  refine .advance h hk fun h1 hf1 => .kind h1 (.ite (fun _ => close h1) fun _ => ?_)
  refine (hitem h1 hf1).bind fun first r2 q2 h2 => .kind h2 (.ite (fun _ => ?_) fun _ => ?_)
  · exact (clauses_keeps hsub h2).bind fun cs r3 q3 h3 => close h3
  · refine Agrees.bind (.many (fun r q h => ?_) h2) fun others r3 q3 h3 => close h3
    refine .kind h (.ite (fun hk => ?_) fun _ => Agrees.pure h)
    refine .advance h (by rw [hk]; rfl) fun h1 hf1 => .kind h1 ?_
    exact .ite (fun _ => Agrees.pure h1) fun _ => (hitem h1 hf1).map

theorem entry_keeps (hsub : ∀ p, Keeps F (sub p) (sub' p)) : Keeps F (entry sub) (entry sub') := by
  intro r q h hf
  refine (hsub _ h hf).bind fun key r1 q1 h1 => .expectFor h1 rfl fun h2 hf2 => ?_
  exact (hsub _ h2 hf2).bind fun value r3 q3 h3 => Agrees.pure h3

theorem startWith_keeps (hsub : ∀ p, Keeps F (sub p) (sub' p)) (h : F.Together r q)
    (hf : r.Fresh) {rule : StartRule} (hs : Grammar.standard.starts r.current.kind = some rule) :
    Agrees F (startWith .standard sub rule) r (startWith .standard sub' rule) q := by
  cases rule with
  | atom => exact atom_keeps h hf
  | unary => exact unary_keeps hsub h (isPlain_of_starts hs (by simp))
  | group => exact group_keeps hsub h (isPlain_of_starts hs (by simp))
  | list => exact bracketed_keeps hsub (hsub _) h (isPlain_of_starts hs (by simp))
  | dict => exact bracketed_keeps hsub (entry_keeps hsub) h (isPlain_of_starts hs (by simp))

section Continue

variable {left : Expr} {precedence : Precedence}

/-- The right operand of an operator. -/
theorem operand_keeps (hsub : ∀ p, Keeps F (sub p) (sub' p)) (h : F.Together r q) (hf : r.Fresh)
    {op : BinaryOp} :
    Agrees F (sub precedence >>= fun right => binaryNode op left right) r
      (sub' precedence >>= fun right => binaryNode op left right) q :=
  (hsub _ h hf).bind fun _ _ _ h1 => Agrees.node h1

theorem binary_keeps (hsub : ∀ p, Keeps F (sub p) (sub' p)) (h : F.Together r q)
    (hk : r.current.kind.isPlain = true) :
    Agrees F (binary sub left precedence) r (binary sub' left precedence) q := by
  refine .advance h hk fun h1 hf1 => ?_
  cases BinaryOp.ofKind? r.current.kind with
  | none => exact .unexpected
  | some op => exact operand_keeps hsub h1 hf1

theorem conditional_keeps (hsub : ∀ p, Keeps F (sub p) (sub' p)) (h : F.Together r q)
    (hk : r.current.kind.isPlain = true) :
    Agrees F (conditional sub left) r (conditional sub' left) q := by
  refine .advance h hk fun h1 hf1 => (hsub _ h1 hf1).bind fun condition r2 q2 h2 => ?_
  refine .expectFor h2 rfl fun h3 hf3 => (hsub _ h3 hf3).bind fun other r4 q4 h4 => ?_
  exact Agrees.node h4

theorem separator_meets {message : String} (h : F.Together r q) :
    Meets (fun _ r' _ q' => F.Together r' q' ∧ r'.Fresh) (separator message) r
      (separator message) q := by
  refine .kind h (.ite (fun hk => ?_) fun _ => .ite (fun _ => .unmet) fun hk => ?_)
  · exact .advance h (by rw [hk]; rfl) fun h1 hf1 => .pure ⟨h1, hf1⟩
  · exact .pure ⟨h, .of_kind (by simp [not_not.1 hk])⟩

theorem argument_keeps (hsub : ∀ p, Keeps F (sub p) (sub' p)) :
    Keeps F (argument sub) (argument sub') := by
  intro r q h hf
  refine .get ?_
  rw [h.current]
  have plain : Agrees F (Argument.positional <$> sub .lowest) r
      (Argument.positional <$> sub' .lowest) q := (hsub _ h hf).map
  cases hk : r.current.kind with
  | sign sign =>
    cases sign with
    | star | starStar =>
      refine .advance h (by rw [hk]; rfl) fun h1 hf1 => ?_
      exact (hsub _ h1 hf1).bind fun value r2 q2 h2 => Agrees.pure h2
    | _ => exact plain
  | identifier =>
    simp only
    rw [h.peek_one (by simp [hk])]
    refine .ite (fun hassign => ?_) fun _ => plain
    refine .advance h (by rw [hk]; rfl) fun h1 _ => ?_
    have hk1 := kind_next_of_peek hassign (by simp)
    refine .advance h1 (by rw [hk1]; rfl) fun h2 hf2 => ?_
    exact (hsub _ h2 hf2).bind fun value r3 q3 h3 => Agrees.pure h3
  | _ => exact plain

/-- Between two arguments stands a comma, so no string follows another. -/
theorem call_keeps (hsub : ∀ p, Keeps F (sub p) (sub' p)) (h : F.Together r q)
    (hk : r.current.kind.isPlain = true) : Agrees F (call sub left) r (call sub' left) q := by
  refine .advance h hk fun h1 hf1 => Agrees.bind (.many_while (I := Fresh) ?_ h1 hf1) ?_
  · intro r q h hf
    refine .kind h (.ite (fun _ => .pure ⟨rfl, h, by simp⟩) fun _ => ?_)
    refine (argument_keeps hsub h hf).bind fun a r1 q1 h1 => (separator_meets h1).bind ?_
    rintro _ r2 _ q2 ⟨h2, hf2⟩
    exact .pure ⟨rfl, h2, fun _ => hf2⟩
  · intro arguments r2 q2 h2
    exact .expect h2 rfl fun h3 _ => .spanFrom h3 fun span => Agrees.node h3

theorem bound_keeps (hsub : ∀ p, Keeps F (sub p) (sub' p)) :
    Keeps F (bound sub) (bound sub') := by
  intro r q h hf
  refine .kind h ?_
  have absent : Agrees F (pure none : Parse (Option Expr)) r (pure none) q := .pure h
  have present : Agrees F (some <$> sub .lowest) r (some <$> sub' .lowest) q := (hsub _ h hf).map
  cases r.current.kind with
  | sign sign =>
    cases sign with
    | colon => exact absent
    | _ => exact present
  | closing bracket =>
    cases bracket with
    | square => exact absent
    | _ => exact present
  | _ => exact present

theorem subscriptRest_keeps (hsub : ∀ p, Keeps F (sub p) (sub' p)) (h : F.Together r q)
    (lower : Option Expr) :
    Agrees F (subscriptRest sub left lower) r (subscriptRest sub' left lower) q := by
  refine .kind h (.ite (fun hc => ?_) fun _ => ?_)
  · refine .advance h (by rw [hc]; rfl) fun h1 hf1 => ?_
    refine (bound_keeps hsub h1 hf1).bind fun upper r2 q2 h2 => .kind h2 ?_
    refine .ite (fun hc => ?_) fun _ => Agrees.pure h2
    refine .advance h2 (by rw [hc]; rfl) fun h3 hf3 => ?_
    exact (bound_keeps hsub h3 hf3).bind fun step r4 q4 h4 => Agrees.pure h4
  · cases lower with
    | none => exact .unmet
    | some key => exact Agrees.pure h

theorem subscriptShape_keeps (hsub : ∀ p, Keeps F (sub p) (sub' p)) :
    Keeps F (subscriptShape .standard sub left) (subscriptShape .standard sub' left) := by
  intro r q h hf
  refine .kind h (.ite (fun _ => subscriptRest_keeps hsub h _) fun _ => ?_)
  exact (exprList_keeps hsub h hf).bind fun e r1 q1 h1 => subscriptRest_keeps hsub h1 _

theorem subscript_keeps (hsub : ∀ p, Keeps F (sub p) (sub' p)) (h : F.Together r q)
    (hk : r.current.kind.isPlain = true) :
    Agrees F (subscript .standard sub left) r (subscript .standard sub' left) q := by
  refine .advance h hk fun h1 hf1 =>
    (subscriptShape_keeps hsub h1 hf1).bind fun shape r2 q2 h2 => ?_
  exact .expect h2 rfl fun h3 _ => .spanFrom h3 fun span => Agrees.node h3

theorem continueWith_keeps (hsub : ∀ p, Keeps F (sub p) (sub' p)) (h : F.Together r q)
    (hk : r.current.kind.isPlain = true) (rule : ContinueRule) :
    Agrees F (continueWith .standard sub left precedence rule) r
      (continueWith .standard sub' left precedence rule) q := by
  cases rule with
  | binary => exact binary_keeps hsub h hk
  | power => exact .advance h hk fun h1 hf1 => operand_keeps hsub h1 hf1
  | notIn =>
    exact .advance h hk fun h1 _ => .expectFor h1 rfl fun h2 hf2 => operand_keeps hsub h2 hf2
  | conditional => exact conditional_keeps hsub h hk
  | call => exact call_keeps hsub h hk
  | subscript => exact subscript_keeps hsub h hk
  | member =>
    exact .advance h hk fun h1 _ => .expectFor h1 rfl fun h2 _ =>
      .spanFrom h2 fun span => Agrees.node h2

theorem extend_keeps (hsub : ∀ p, Keeps F (sub p) (sub' p)) (h : F.Together r q)
    (least : Precedence) :
    Agrees F (extend .standard sub least left) r (extend .standard sub' least left) q := by
  refine .kind h ?_
  cases hc : Grammar.standard.continues r.current.kind with
  | none => exact Agrees.pure h
  | some found =>
    have hk : r.current.kind.isPlain = true := isPlain_of_continues (by simp [hc])
    exact .ite (fun _ => (continueWith_keeps hsub h hk _).map) fun _ => Agrees.pure h

end Continue

theorem expressionOf_keeps (hsub : ∀ p, Keeps F (sub p) (sub' p)) (least : Precedence) :
    Keeps F (expressionOf .standard sub least) (expressionOf .standard sub' least) := by
  intro r q h hf
  refine .kind h ?_
  cases hs : Grammar.standard.starts r.current.kind with
  | none => exact .unmet
  | some rule =>
    exact (startWith_keeps hsub h hf hs).bind fun first r1 q1 h1 =>
      Agrees.iterate (fun left r q h => extend_keeps hsub h least) first h1

end Parse

open Parse

/-- Expressions are read side by side as the same expression. -/
theorem expression_keeps {F : Fork} (least : Precedence) :
    Keeps F (expression .standard least) (expression .standard least) := by
  intro r
  induction hn : r.remaining using Nat.strongRecOn generalizing r least with
  | ind n ih =>
    subst hn
    intro q h hf e r' e' q' hx hy
    rw [expression] at hx hy
    refine expressionOf_keeps (fun p r1 q1 h1 hf1 => ?_) least h hf hx hy
    exact .guarded h h1 (fun hlt => ih _ hlt p rfl h1 hf1)
      (expressionOf_keeps (fun _ _ _ _ _ => .unmet) p h1 hf1)

end BuildTyping
