import BuildTyping.Proofs.Grammar.Expression
import BuildTyping.Proofs.Grammar.Turns

/-!
# Faults point at tokens

A fault of a parse lies at the start of a token that was read or was still to be read. That is
seen rule by rule, together with what a success says of its result.
-/

namespace BuildTyping

variable {T : List Token}

/-- The fault lies at the start of one of the tokens. -/
def Fault.PointsInto (fault : Fault) (T : List Token) : Prop :=
  ∃ t ∈ T, t.span.start = fault.position

namespace Reader

/-- All that is ahead of the reader is among the tokens, with the mark of the end last. -/
structure Among (r : Reader) (T : List Token) : Prop where
  ended : r.Ended
  ahead : r.ahead ⊆ T

variable {r r' : Reader} {ts : List Token}

theorem Among.current (h : r.Among T) : r.current ∈ T := h.ahead List.mem_cons_self

theorem Among.next (h : r.Among T) : r.next.Among T := by
  cases hu : r.upcoming with
  | nil =>
    have hnext : r.next = r := by
      unfold Reader.next
      split
      · rfl
      · rename_i hcons
        simp [hu] at hcons
    rwa [hnext]
  | cons t ts =>
    have hahead : r.next.ahead = r.upcoming := ahead_next rfl (by simp [hu])
    obtain ⟨last, hlast, hkind⟩ := h.ended
    refine ⟨⟨last, ?_, hkind⟩, hahead ▸ List.Subset.trans (List.subset_cons_self _ _) h.ahead⟩
    rw [hahead]
    rwa [Reader.ahead, hu, List.getLast?_cons_cons, ← hu] at hlast

theorem Among.unmet (h : r.Among T) (message : String) : (r.unmet message).PointsInto T :=
  ⟨r.current, h.current, rfl⟩

end Reader

namespace Parse

variable {α β : Type}

/-- Among the tokens, a success has the property and stays among them, and a fault points into
them. -/
def Points (T : List Token) (x : Parse α) (Q : α → Prop) : Prop :=
  ∀ r : Reader, r.Among T → match x r with
    | .ok a r' => r'.Among T ∧ Q a
    | .error fault _ => fault.PointsInto T

/-- Where nothing is said of the result. -/
def Any (_ : α) : Prop := True

namespace Points

variable {x : Parse α} {f : α → Parse β} {P Q : α → Prop} {R : β → Prop}

theorem pure {a : α} (h : Q a) : Points T (pure a) Q := fun _ hr => ⟨hr, h⟩

theorem throw {fault : Fault} (h : fault.PointsInto T) : Points T (throw fault) Q := fun _ _ => h

theorem unmet (message : String) : Points T (unmet message) Q := fun _ hr => hr.unmet message

theorem unexpected {t : Token} (ht : t ∈ T) : Points T (unexpected t) Q := fun _ _ => ⟨t, ht, rfl⟩

theorem mono (h : Points T x P) (hPQ : ∀ a, P a → Q a) : Points T x Q := by
  intro r hr
  have hx := h r hr
  cases hrun : x r with
  | ok a r' =>
    rw [hrun] at hx
    exact ⟨hx.1, hPQ a hx.2⟩
  | error fault r' =>
    rw [hrun] at hx
    exact hx

theorem bind (h : Points T x P) (hf : ∀ a, P a → Points T (f a) R) : Points T (x >>= f) R := by
  intro r hr
  have hx := h r hr
  cases hrun : x r with
  | ok a mid =>
    rw [hrun] at hx
    rw [bind_of_ok hrun]
    exact hf a hx.2 mid hx.1
  | error fault mid =>
    rw [hrun] at hx
    simp only [Bind.bind, EStateM.bind, hrun]
    exact hx

theorem map {f : α → β} (h : Points T x fun a => R (f a)) : Points T (f <$> x) R := by
  rw [map_eq_pure_bind]
  exact h.bind fun a ha => .pure ha

theorem ite {c : Prop} [Decidable c] {x y : Parse α} (hx : Points T x Q) (hy : Points T y Q) :
    Points T (if c then x else y) Q := by
  split
  · exact hx
  · exact hy

theorem get {f : Reader → Parse β} (h : ∀ r : Reader, r.Among T → Points T (f r) R) :
    Points T (get >>= f) R := fun r hr => h r hr r hr

theorem kind {f : TokenKind → Parse β} (h : ∀ k, Points T (f k) R) : Points T (kind >>= f) R :=
  fun r hr => h _ r hr

theorem spanFrom {start : Position} {f : Span → Parse β} (h : ∀ span, Points T (f span) R) :
    Points T (spanFrom start >>= f) R := fun r hr => h _ r hr

theorem node {span : Span} {shape : Shape Expr} : Points T (node span shape) Any :=
  fun _ hr => ⟨⟨hr.ended, hr.ahead⟩, trivial⟩

theorem advance {f : Token → Parse β} (h : ∀ t ∈ T, Points T (f t) R) :
    Points T (advance >>= f) R := fun _ hr => h _ hr.current _ hr.next

theorem expect {expected : TokenKind} {f : Token → Parse β} (h : ∀ t ∈ T, Points T (f t) R) :
    Points T (expect expected >>= f) R := by
  refine bind (P := (· ∈ T)) (fun r hr => ?_) h
  rw [expect_run]
  by_cases hk : r.current.kind = expected
  · simp only [if_pos hk]
    exact ⟨hr.next, hr.current⟩
  · simp only [if_neg hk]
    exact ⟨r.current, hr.current, rfl⟩

theorem expectFor {expected : TokenKind} {message : String} {f : Token → Parse β}
    (h : ∀ t ∈ T, Points T (f t) R) : Points T (expectFor expected message >>= f) R := by
  refine bind (P := (· ∈ T)) (fun r hr => ?_) h
  rw [expectFor_run]
  by_cases hk : r.current.kind = expected
  · simp only [if_pos hk]
    exact ⟨hr.next, hr.current⟩
  · simp only [if_neg hk]
    exact hr.unmet message

theorem many {item : Parse (Option α)} (h : Points T item fun o => ∀ a ∈ o, Q a) :
    Points T (many item) fun as => ∀ a ∈ as, Q a := by
  intro r hr
  fun_induction Parse.many item r with
  | case1 r fault r' hi =>
    have hx := h r hr
    rw [hi] at hx
    exact hx
  | case2 r r' hi =>
    have hx := h r hr
    rw [hi] at hx
    exact ⟨hx.1, by simp⟩
  | case3 r a mid hi hlt fault r' hm ih =>
    have hx := h r hr
    rw [hi] at hx
    have hrest := ih hx.1
    rw [hm] at hrest
    exact hrest
  | case4 r a mid hi hlt as r' hm ih =>
    have hx := h r hr
    rw [hi] at hx
    have hrest := ih hx.1
    rw [hm] at hrest
    exact ⟨hrest.1, List.forall_mem_cons.2 ⟨hx.2 a rfl, hrest.2⟩⟩
  | case5 r a mid hi hlt =>
    have hx := h r hr
    rw [hi] at hx
    exact ⟨hx.1, by simpa using hx.2 a rfl⟩

/-- A loop of turns of which nothing is said. -/
theorem many_any {item : Parse (Option α)} (h : Points T item Any) :
    Points T (Parse.many item) Any :=
  (many (Q := Any) (h.mono fun _ _ _ _ => trivial)).mono fun _ _ => trivial

theorem iterate {turn : α → Parse (Option α)} (h : ∀ a, Points T (turn a) Any) (a : α) :
    Points T (iterate turn a) Any := by
  intro r hr
  fun_induction Parse.iterate turn a r with
  | case1 a r fault r' ht =>
    have hx := h a r hr
    rw [ht] at hx
    exact hx
  | case2 a r r' ht | case4 a r b r' ht hlt =>
    have hx := h a r hr
    rw [ht] at hx
    exact ⟨hx.1, trivial⟩
  | case3 a r b r' ht hlt ih =>
    have hx := h a r hr
    rw [ht] at hx
    exact ih hx.1

end Points

section Parts

variable {g : Grammar} {sub : Precedence → Parse Expr} (hsub : ∀ p, Points T (sub p) Any)

theorem separator_points (message : String) : Points T (separator message) Any :=
  .kind fun _ => .ite (.advance fun _ _ => .pure trivial) (.ite (.unmet message) (.pure trivial))

theorem atom_points : Points T atom Any := by
  refine .get fun r hr => ?_
  have malformed : Points T (throw ⟨.malformedNumber r.current.value, r.current.span.start⟩)
      (Any : Expr → Prop) := .throw ⟨r.current, hr.current, rfl⟩
  have leaf (shape : Shape Expr) :
      Points T (advance >>= fun _ => node r.current.span shape) Any := .advance fun _ _ => .node
  simp only
  split
  case h_1 => cases Integer.read? r.current.value.toList with
    | some n => exact leaf _
    | none => exact malformed
  case h_2 => cases Binary64.read? r.current.value.toList with
    | some x => exact leaf _
    | none => exact malformed
  case h_8 => exact .unmet _
  all_goals exact leaf _

include hsub

theorem commaList_points (p : Precedence) : Points T (commaList g sub p) Any := by
  have hturn : Points T (commaTurn g sub p) Any :=
    .kind fun _ => .ite (.advance fun _ _ => .bind (P := Any) (.kind fun _ => .pure trivial)
      fun _ _ => .ite (.map (hsub p)) (.pure trivial)) (.pure trivial)
  refine .bind (hsub p) fun first _ => .kind fun _ => .ite ?_ (.pure trivial)
  exact hturn.many_any.bind fun _ _ => .spanFrom fun _ => .node

theorem clauses_points : Points T (clauses g sub) Any := by
  have hturn : Points T (clauseTurn g sub) Any := by
    refine .kind fun k => ?_
    split
    · refine .advance fun _ _ => (commaList_points hsub _).bind fun _ _ => .expect fun _ _ => ?_
      exact (hsub _).bind fun _ _ => .pure trivial
    · exact .advance fun _ _ => (hsub _).bind fun _ _ => .pure trivial
    · exact .pure trivial
  exact hturn.many_any

theorem entry_points : Points T (entry sub) Any :=
  (hsub _).bind fun _ _ => .expectFor fun _ _ => (hsub _).bind fun _ _ => .pure trivial

theorem bracketed_points {bracket : Bracket} {item : Parse α} (hitem : Points T item Any)
    (collect : List α → Shape Expr) (comprehend : α → List (Clause Expr) → Shape Expr) :
    Points T (bracketed g sub bracket item collect comprehend) Any := by
  have hturn : Points T (itemTurn bracket item) Any :=
    .kind fun _ => .ite (.advance fun _ _ => .kind fun _ => .ite (.pure trivial) (.map hitem))
      (.pure trivial)
  have close {start : Position} (shape : Shape Expr) :
      Points T (expect (.closing bracket) >>= fun _ => spanFrom start >>= fun span =>
        node span shape) Any := .expect fun _ _ => .spanFrom fun _ => .node
  refine .advance fun _ _ => .kind fun _ => .ite (close _) (hitem.bind fun first _ => ?_)
  exact .kind fun _ => .ite ((clauses_points hsub).bind fun _ _ => close _)
    (hturn.many_any.bind fun _ _ => close _)

theorem startWith_points (rule : StartRule) : Points T (startWith g sub rule) Any := by
  cases rule with
  | atom => exact atom_points
  | unary =>
    refine .advance fun t ht => ?_
    cases UnaryOp.ofKind? t.kind with
    | some op => exact (hsub _).bind fun _ _ => .node
    | none => exact .unexpected ht
  | group =>
    refine .advance fun _ _ => .kind fun _ => .ite ?_ ?_
    · exact .advance fun _ _ => .spanFrom fun _ => .node
    · refine (commaList_points hsub _).bind fun _ _ => .expect fun _ _ => ?_
      exact .spanFrom fun _ => .pure trivial
  | list => exact bracketed_points hsub (hsub _) _ _
  | dict => exact bracketed_points hsub (entry_points hsub) _ _

theorem argument_points : Points T (argument sub) Any := by
  have value (wrap : Expr → Argument Expr) :
      Points T (sub .lowest >>= fun e => pure (wrap e)) Any :=
    (hsub _).bind fun _ _ => .pure trivial
  refine .get fun r _ => ?_
  split
  · exact .advance fun _ _ => value _
  · exact .advance fun _ _ => value _
  · exact .ite (.advance fun _ _ => .advance fun _ _ => value _) (value _)
  · exact value _

theorem bound_points : Points T (bound sub) Any := by
  refine .kind fun k => ?_
  split
  · exact .pure trivial
  · exact .pure trivial
  · exact .map (hsub _)

theorem subscriptRest_points (left : Expr) (lower : Option Expr) :
    Points T (subscriptRest sub left lower) Any := by
  refine .kind fun _ => .ite (.advance fun _ _ => (bound_points hsub).bind fun _ _ => ?_) ?_
  · exact .kind fun _ => .ite (.advance fun _ _ => (bound_points hsub).bind fun _ _ =>
      .pure trivial) (.pure trivial)
  · cases lower with
    | some key => exact .pure trivial
    | none => exact .unmet _

theorem subscriptShape_points (left : Expr) : Points T (subscriptShape g sub left) Any :=
  .kind fun _ => .ite (subscriptRest_points hsub left none)
    ((commaList_points hsub _).bind fun _ _ => subscriptRest_points hsub left _)

theorem continueWith_points (left : Expr) (p : Precedence) (rule : ContinueRule) :
    Points T (continueWith g sub left p rule) Any := by
  have right (op : BinaryOp) (p : Precedence) :
      Points T (sub p >>= fun right => binaryNode op left right) Any :=
    (hsub p).bind fun _ _ => .node
  cases rule with
  | binary =>
    refine .advance fun t ht => ?_
    cases BinaryOp.ofKind? t.kind with
    | some op => exact right op p
    | none => exact .unexpected ht
  | power => exact .advance fun _ _ => right .power .unary
  | notIn => exact .advance fun _ _ => .expectFor fun _ _ => right .notIn p
  | conditional =>
    refine .advance fun _ _ => (hsub _).bind fun _ _ => .expectFor fun _ _ => ?_
    exact (hsub _).bind fun _ _ => .node
  | call =>
    have hturn : Points T (argumentTurn sub) Any :=
      .kind fun _ => .ite (.pure trivial) ((argument_points hsub).bind fun _ _ =>
        (separator_points _).bind fun _ _ => .pure trivial)
    refine .advance fun _ _ => hturn.many_any.bind fun _ _ => ?_
    exact .expect fun _ _ => .spanFrom fun _ => .node
  | subscript =>
    refine .advance fun _ _ => (subscriptShape_points hsub left).bind fun _ _ => ?_
    exact .expect fun _ _ => .spanFrom fun _ => .node
  | member => exact .advance fun _ _ => .expectFor fun _ _ => .spanFrom fun _ => .node

theorem expressionOf_points (least : Precedence) : Points T (expressionOf g sub least) Any := by
  have hextend (left : Expr) : Points T (extend g sub least left) Any := by
    refine .kind fun k => ?_
    cases g.continues k with
    | none => exact .pure trivial
    | some found =>
      exact .ite (.map (continueWith_points hsub left found.1 found.2)) (.pure trivial)
  refine .kind fun k => ?_
  cases g.starts k with
  | none => exact .unmet _
  | some rule => exact (startWith_points hsub rule).bind fun first _ => .iterate hextend first

end Parts

end Parse

open Parse

/-- The guards of the recursion fault the current token as well. -/
theorem expression_points (g : Grammar) (p : Precedence) : Points T (expression g p) Any := by
  intro r
  induction hn : r.remaining using Nat.strongRecOn generalizing r p with
  | ind n ih =>
    subst hn
    rw [expression]
    refine expressionOf_points (fun p r' hr' => ?_) p r
    by_cases hlt : r'.remaining < r.remaining
    · rw [if_pos hlt]
      exact ih _ hlt p r' rfl hr'
    · rw [if_neg hlt]
      exact expressionOf_points (fun _ => .unmet _) p r' hr'

end BuildTyping
