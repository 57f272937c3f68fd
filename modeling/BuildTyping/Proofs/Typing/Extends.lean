import BuildTyping.Proofs.Syntax.Extends
import BuildTyping.Proofs.Typing.Records

/-!
# Types of programs that go on

The evaluation goes forwards. What is added at the end of a program is visited after everything
else, so it leaves the types of what was there before as they are.
-/

namespace BuildTyping

variable {P : Expr → Prop}

mutual

theorem Stmt.Extends.visits_prefix : ∀ {s s' : Stmt}, s.Extends P s' → ∀ env,
    Visits.ofStmt env s <+: Visits.ofStmt env s'
  | _, _, .refl _ => fun _ => List.prefix_rfl
  | _, _, .define h | _, _, .loop h | _, _, .other h => fun _ => by
    simp only [Visits.ofStmt, List.prefix_append_right_inj]
    exact h.visits_prefix _
  | _, _, .body h _ => fun _ => by
    simp only [Visits.ofStmt, Visits.ofBlock, List.append_nil, List.prefix_append_right_inj]
    exact (h.visits_prefix _).trans (List.prefix_append _ _)

theorem Stmt.BlockExtends.visits_prefix : ∀ {ss ss' : List Stmt}, BlockExtends P ss ss' → ∀ env,
    Visits.ofBlock env ss <+: Visits.ofBlock env ss'
  | _, _, .nil _ => fun _ => List.nil_prefix
  | _, _, .last h _ => fun _ => by
    simp only [Visits.ofBlock, List.append_nil]
    exact (h.visits_prefix _).trans (List.prefix_append _ _)
  | _, _, .cons _ h => fun _ => by
    simp only [Visits.ofBlock, List.prefix_append_right_inj]
    exact h.visits_prefix _

end

namespace Program

variable {p p' : Program}

/-- Where all ids differ, the expressions of a program keep their types when it goes on. -/
theorem types_of_extends (h : Stmt.BlockExtends P p.body p'.body)
    (hp : (p.nodes.map Expr.id).Nodup) (hp' : (p'.nodes.map Expr.id).Nodup) {e : Expr}
    (he : e ∈ p.nodes) : p'.types[e.id]? = p.types[e.id]? := by
  have hvisits : p.visits <+: p'.visits := h.visits_prefix .empty
  obtain ⟨v, hv, rfl⟩ := exists_visit_of_mem_nodes he
  rw [getElem?_types hp hv, getElem?_types hp' (hvisits.subset hv)]

end Program

end BuildTyping
