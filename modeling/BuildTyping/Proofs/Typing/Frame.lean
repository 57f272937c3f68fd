import BuildTyping.Proofs.Typing.Simulation

/-!
# What inference leaves alone

Started in any state, inference keeps the types already recorded and never leaves a scope that it
has not entered. An expression and a definition give back the scopes that they were given, and any
other statement changes the innermost scope alone.
-/

namespace BuildTyping

namespace Visit

theorem getElem?_record_of_some {types : TypeMap} {id : Nat} {ty : Ty}
    (h : types[id]? = some ty) (v : Visit) : (v.record types)[id]? = some ty := by
  cases hv : v.ty? with
  | none => simpa [record, hv] using h
  | some other =>
    have hmem : id ∈ types := Std.TreeMap.mem_iff_isSome_getElem?.2 (by simp [h])
    simp only [record, hv, Std.TreeMap.getElem?_insertIfNew]
    rw [if_neg ?_, h]
    rintro ⟨heq, hnot⟩
    obtain rfl : v.expr.id = id := by simpa using heq
    exact hnot hmem

/-- A type that is recorded stays, whatever is visited after it. -/
theorem getElem?_foldl_record_of_some {types : TypeMap} {id : Nat} {ty : Ty}
    (h : types[id]? = some ty) (visits : List Visit) :
    (visits.foldl record types)[id]? = some ty := by
  induction visits generalizing types with
  | nil => exact h
  | cons v visits ih => exact ih (getElem?_record_of_some h v)

end Visit

/-- The innermost scope is all that may differ, and there are as many scopes as before. -/
structure Scopes.SameAround (before after : Scopes) : Prop where
  depth : after.depth = before.depth
  outer : after.outer = before.outer

namespace Infer

variable {α : Type}

/-- From every state `m` leaves scopes that `kept` allows, keeps all types that are recorded, and
never has to leave the outermost scope. -/
structure Frames (m : Infer α) (kept : Scopes → Scopes → Prop) : Prop where
  scopes : ∀ s : Inference, kept s.scopes (m s).2.scopes
  types : ∀ (s : Inference) (id : Nat) (ty : Ty), s.types[id]? = some ty →
    (m s).2.types[id]? = some ty
  leaves : ∀ s : Inference, ∃ events, (m s).2.events = events ++ s.events ∧
    Event.refusedToLeave ∉ events

/-- What is known of the runs of `m` in all scopes holds of every state. -/
theorem Frames.of_runs {m : Infer α} {kept : Scopes → Scopes → Prop}
    (h : ∀ before, ∃ a after visits, Runs before m a after visits ∧ kept before after) :
    Frames m kept where
  scopes s := by
    obtain ⟨a, after, visits, hm, hkept⟩ := h s.scopes
    obtain ⟨events, hrun, -, -⟩ := hm s rfl
    rw [hrun]
    exact hkept
  types s id ty hty := by
    obtain ⟨a, after, visits, hm, -⟩ := h s.scopes
    obtain ⟨events, hrun, -, -⟩ := hm s rfl
    rw [hrun]
    exact Visit.getElem?_foldl_record_of_some hty visits
  leaves s := by
    obtain ⟨a, after, visits, hm, -⟩ := h s.scopes
    obtain ⟨events, hrun, -, hleave⟩ := hm s rfl
    exact ⟨events, by rw [hrun], hleave⟩

theorem Frames.of_changes {m : Infer Unit}
    (h : ∀ before, ∃ env visits, Changes before m env visits) :
    Frames m Scopes.SameAround := by
  refine .of_runs fun before => ?_
  obtain ⟨env, visits, after, hm, houter, -⟩ := h before
  refine ⟨(), after, visits, hm, ?_, houter⟩
  simp [Scopes.depth, Scopes.toList, houter]

/-- Expressions and definitions leave all scopes as they were, statements and blocks all but the
innermost. Nothing that is recorded is lost, and no scope is left that was not entered. -/
theorem frames_inference :
    (∀ (role : Role) (e : Expr), Frames (resolve role e) fun before after => after = before) ∧
    (∀ s : Stmt, Frames (inferStmt s) Scopes.SameAround) ∧
    (∀ block : List Stmt, Frames (inferBlock block) Scopes.SameAround) ∧
    ∀ (span : Span) (name : String) (parameters : List Parameter) (body : List Stmt),
      Frames (inferStmt ⟨span, .define name parameters body⟩) fun before after =>
        after = before := by
  refine ⟨fun role e => ?_, fun s => ?_, fun block => ?_, fun span name parameters body => ?_⟩
  · exact .of_runs fun before => ⟨_, before, _, resolve_runs before role e, rfl⟩
  · exact .of_changes fun before => ⟨_, _, inferStmt_changes before s⟩
  · exact .of_changes fun before => ⟨_, _, inferBlock_changes before block⟩
  · exact .of_runs fun before => ⟨_, before, _,
      define_runs before span name parameters body fun inner => inferBlock_changes inner body, rfl⟩

end Infer

end BuildTyping
