import BuildTyping.Grammar.Statement
import BuildTyping.Proofs.Syntax.Targets

/-!
# What can be assigned to

Names, attributes, indexes and slices can be assigned to, and so can tuples and lists of what can
be. An augmented assignment changes a single name, attribute or index.
-/

namespace BuildTyping

namespace Expr

inductive Assignable : Expr → Prop where
  | name (id : Nat) (span : Span) (label : String) : Assignable ⟨id, span, .name label⟩
  | member (id : Nat) (span : Span) (object : Expr) (label : String) :
      Assignable ⟨id, span, .member object label⟩
  | index (id : Nat) (span : Span) (object key : Expr) : Assignable ⟨id, span, .index object key⟩
  | slice (id : Nat) (span : Span) (object : Expr) (lower upper step : Option Expr) :
      Assignable ⟨id, span, .slice object lower upper step⟩
  | tuple (id : Nat) (span : Span) {elements : List Expr}
      (each : ∀ e ∈ elements, Assignable e) : Assignable ⟨id, span, .tuple elements⟩
  | list (id : Nat) (span : Span) {elements : List Expr}
      (each : ∀ e ∈ elements, Assignable e) : Assignable ⟨id, span, .list elements⟩

inductive Augmentable : Expr → Prop where
  | name (id : Nat) (span : Span) (label : String) : Augmentable ⟨id, span, .name label⟩
  | member (id : Nat) (span : Span) (object : Expr) (label : String) :
      Augmentable ⟨id, span, .member object label⟩
  | index (id : Nat) (span : Span) (object key : Expr) : Augmentable ⟨id, span, .index object key⟩

end Expr

theorem augmentable_of_isAugmentable {e : Expr} (h : isAugmentable e = true) : e.Augmentable := by
  obtain ⟨id, span, shape⟩ := e
  cases shape with
  | name label => exact .name id span label
  | member object label => exact .member id span object label
  | index object key => exact .index id span object key
  | _ => simp [isAugmentable] at h

mutual

theorem assignable_of_unassignable? : {e : Expr} → unassignable? e = none → e.Assignable
  | ⟨id, span, .name label⟩, _ => .name id span label
  | ⟨id, span, .member object label⟩, _ => .member id span object label
  | ⟨id, span, .index object key⟩, _ => .index id span object key
  | ⟨id, span, .slice object lower upper step⟩, _ => .slice id span object lower upper step
  | ⟨id, span, .tuple _⟩, h => .tuple id span (assignable_of_unassignableIn? h)
  | ⟨id, span, .list _⟩, h => .list id span (assignable_of_unassignableIn? h)
  | ⟨_, _, .literal _⟩, h | ⟨_, _, .dict _⟩, h | ⟨_, _, .listComp _ _⟩, h
  | ⟨_, _, .dictComp _ _⟩, h | ⟨_, _, .call _ _⟩, h | ⟨_, _, .binary _ _ _⟩, h
  | ⟨_, _, .unary _ _⟩, h | ⟨_, _, .conditional _ _ _⟩, h => by simp [unassignable?] at h

theorem assignable_of_unassignableIn? : {es : List Expr} → unassignableIn? es = none →
    ∀ e ∈ es, e.Assignable
  | [], _ => by simp
  | e :: es, h => by
    obtain ⟨hfirst, hrest⟩ := Option.or_eq_none_iff.1 h
    exact List.forall_mem_cons.2
      ⟨assignable_of_unassignable? hfirst, assignable_of_unassignableIn? hrest⟩

end

theorem unassignable?_eq_none {e : Expr} (h : e.Assignable) : unassignable? e = none := by
  have all {es : List Expr} (h : ∀ e ∈ es, unassignable? e = none) :
      unassignableIn? es = none := by
    induction es with
    | nil => rfl
    | cons e es ih =>
      exact Option.or_eq_none_iff.2 ⟨h e List.mem_cons_self, ih fun e he => h e (by simp [he])⟩
  induction e using Expr.inductionOnParts with
  | step e ih =>
    cases h with
    | name | member | index | slice => rfl
    | tuple _ _ each | list _ _ each => exact all fun e he => ih e he (each e he)

instance : DecidablePred Expr.Assignable := fun e =>
  decidable_of_iff ((unassignable? e).isNone = true)
    (Option.isNone_iff_eq_none.trans ⟨assignable_of_unassignable?, unassignable?_eq_none⟩)

mutual

/-- What can not be assigned to is a part of the target. -/
theorem unassignable?_mem_nodes {part : Expr} : {e : Expr} → unassignable? e = some part →
    part ∈ e.nodes
  | ⟨_, _, .name _⟩, h | ⟨_, _, .member _ _⟩, h | ⟨_, _, .index _ _⟩, h
  | ⟨_, _, .slice _ _ _ _⟩, h => by simp [unassignable?] at h
  | ⟨_, _, .tuple _⟩, h | ⟨_, _, .list _⟩, h => by
    rw [Expr.nodes_eq]
    exact List.mem_cons_of_mem _ (unassignableIn?_mem_nodes h)
  | ⟨_, _, .literal _⟩, h | ⟨_, _, .dict _⟩, h | ⟨_, _, .listComp _ _⟩, h
  | ⟨_, _, .dictComp _ _⟩, h | ⟨_, _, .call _ _⟩, h | ⟨_, _, .binary _ _ _⟩, h
  | ⟨_, _, .unary _ _⟩, h | ⟨_, _, .conditional _ _ _⟩, h => by
    rw [Expr.nodes_eq, ← Option.some.inj h]
    exact List.mem_cons_self

theorem unassignableIn?_mem_nodes {part : Expr} : {es : List Expr} →
    unassignableIn? es = some part → part ∈ es.flatMap Expr.nodes
  | [], h => by simp [unassignableIn?] at h
  | e :: es, h => by
    rw [List.flatMap_cons, List.mem_append]
    rcases Option.or_eq_some_iff.1 h with h | ⟨-, h⟩
    · exact .inl (unassignable?_mem_nodes h)
    · exact .inr (unassignableIn?_mem_nodes h)

end

/-- What the statement binds itself can be assigned to. -/
structure Form.Assigns {σ : Type} (form : Form σ) : Prop where
  targets : ∀ target ∈ form.targets, target.Assignable
  augmented : ∀ op target value, form = .augment op target value → target.Augmentable

namespace Form.Assigns

variable {σ : Type}

theorem of_target {form : Form σ} {target : Expr} (htargets : form.targets = [target])
    (h : target.Assignable) : form.Assigns where
  targets := by simpa [htargets] using h
  augmented := by
    rintro op t value rfl
    simp [Form.targets] at htargets

theorem augment {op : BinaryOp} {target value : Expr} (h : target.Augmentable) :
    (Form.augment op target value : Form σ).Assigns where
  targets := by simp [Form.targets]
  augmented := by
    rintro _ _ _ hform
    cases hform
    exact h

/-- A statement of another form binds nothing itself. -/
theorem of_none {form : Form σ} (htargets : form.targets = [])
    (h : ∀ op target value, form ≠ .augment op target value) : form.Assigns where
  targets := by simp [htargets]
  augmented op target value hform := absurd hform (h op target value)

end Form.Assigns

/-- What the statement and those within it bind can be assigned to. -/
def Stmt.Assigns (s : Stmt) : Prop := ∀ inner ∈ s.nested, inner.form.Assigns

theorem Stmt.Assigns.of_bodies {span : Span} {form : Form Stmt} (h : form.Assigns)
    (bodies : ∀ s ∈ form.bodies, s.Assigns) : Stmt.Assigns ⟨span, form⟩ := by
  intro inner hinner
  rw [nested_eq] at hinner
  rcases List.mem_cons.1 hinner with rfl | hinner
  · exact h
  · obtain ⟨s, hs, hinner⟩ := List.mem_flatMap.1 hinner
    exact bodies s hs inner hinner

end BuildTyping
