import BuildTyping.Report.Annotated
import Mathlib.Data.List.Pairwise

/-!
# The order of insertions

The order in which insertions are made is total, and for the ends of expressions whose spans are
nested or apart it is the order of brackets.
-/

namespace BuildTyping

namespace Insertion

theorem precedes_total (a b : Insertion) : (precedes a b || precedes b a) = true := by
  simp only [precedes]
  grind

theorem precedes_trans (a b c : Insertion) (h : precedes a b = true) (h' : precedes b c = true) :
    precedes a c = true := by
  simp only [precedes] at *
  grind

/-- One insertion comes before another, whatever the ids. -/
def Before (a b : Insertion) : Prop :=
  a.offset < b.offset ∨ a.offset = b.offset ∧
    (a.opens = false ∧ b.opens = true ∨ a.opens = b.opens ∧ b.opposite < a.opposite)

variable {a b : Insertion}

theorem Before.precedes (h : Before a b) : precedes a b = true := by
  simp only [Before, Insertion.precedes] at *
  grind

theorem Before.not_precedes (h : Before a b) : Insertion.precedes b a = false := by
  simp only [Before, Insertion.precedes] at *
  grind

theorem Before.ne (h : Before a b) : a ≠ b := by
  rintro rfl
  simp only [Before] at h
  grind

/-- Insertions in the order of brackets are what sorting gives, whatever order they came in. -/
theorem mergeSort_eq {is js : List Insertion} (h : is.Pairwise Before) (hp : js.Perm is) :
    js.mergeSort Insertion.precedes = is := by
  have comparable : ∀ x ∈ is, ∀ y ∈ is, x = y ∨ Before x y ∨ Before y x := by
    have : Std.Symm fun x y => x = y ∨ Before x y ∨ Before y x := ⟨by grind⟩
    exact List.Pairwise.forall_of_forall (by simp) (h.imp fun hb => .inr (.inl hb))
  have hsorted : (js.mergeSort Insertion.precedes).Pairwise
      fun x y => Insertion.precedes x y = true :=
    List.pairwise_mergeSort precedes_trans precedes_total js
  have hbrackets : is.Pairwise fun x y => Insertion.precedes x y = true :=
    h.imp Before.precedes
  refine List.Perm.eq_of_pairwise ?_ hsorted hbrackets ((List.mergeSort_perm js _).trans hp)
  intro x y hx hy hxy hyx
  have hx' : x ∈ is := hp.mem_iff.1 (List.mem_mergeSort.1 hx)
  rcases comparable x hx' y hy with he | hb | hb
  · exact he
  · simp [hb.not_precedes] at hyx
  · simp [hb.not_precedes] at hxy

end Insertion

namespace Mark

/-- The two insertions that wrap the expression. -/
def ends (m : Mark) : List Insertion := [.closer m, .opener m]

variable {m n : Mark} {i j : Insertion}

theorem before_of_apart (hm : m.expr.span.start.offset < m.expr.span.stop.offset)
    (hn : n.expr.span.start.offset < n.expr.span.stop.offset)
    (h : m.expr.span.stop.offset ≤ n.expr.span.start.offset)
    (hi : i ∈ m.ends) (hj : j ∈ n.ends) : Insertion.Before i j := by
  simp only [ends, List.mem_cons, List.not_mem_nil, or_false] at hi hj
  rcases hi with rfl | rfl <;> rcases hj with rfl | rfl <;>
    simp only [Insertion.Before, Insertion.opener, Insertion.closer] <;> grind

/-- An expression strictly around another opens before it and closes behind it. -/
theorem before_of_within (hm : m.expr.span.start.offset < m.expr.span.stop.offset)
    (hstart : n.expr.span.start.offset ≤ m.expr.span.start.offset)
    (hstop : m.expr.span.stop.offset ≤ n.expr.span.stop.offset)
    (hne : n.expr.span.start.offset < m.expr.span.start.offset ∨
      m.expr.span.stop.offset < n.expr.span.stop.offset)
    (hi : i ∈ m.ends) : Insertion.Before (.opener n) i ∧ Insertion.Before i (.closer n) := by
  simp only [ends, List.mem_cons, List.not_mem_nil, or_false] at hi
  rcases hi with rfl | rfl <;>
    simp only [Insertion.Before, Insertion.opener, Insertion.closer] <;> grind

theorem opener_before_closer (hm : m.expr.span.start.offset < m.expr.span.stop.offset) :
    Insertion.Before (.opener m) (.closer m) := .inl hm

end Mark

end BuildTyping
