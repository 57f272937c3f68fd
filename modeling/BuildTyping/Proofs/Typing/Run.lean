import BuildTyping.Proofs.Typing.Scoping

/-!
# Runs of inference

What a part of the inference does when it is started in given scopes: its answer, the scopes it
leaves, and the points of the flat evaluation whose findings it records. Runs are put together
step by step.
-/

namespace BuildTyping

/-- The id and the type of a record. -/
def Event.recorded? : Event → Option (Nat × Ty)
  | recorded id ty => some (id, ty)
  | _ => none

namespace Infer

variable {α β : Type} {before middle after : Scopes} {env env' : Environment}
variable {first second : List Visit}

/-- Started in the scopes `before`, `m` answers `a` and leaves the scopes `after`. It records what
is found at the visits, in their order, and leaves no scope that it has not entered. -/
def Runs (before : Scopes) (m : Infer α) (a : α) (after : Scopes) (visits : List Visit) : Prop :=
  ∀ s : Inference, s.scopes = before → ∃ events : List Event,
    m s = (a, ⟨visits.foldl Visit.record s.types, after, events ++ s.events⟩) ∧
    events.reverse.filterMap Event.recorded? = visits.filterMap Visit.finding? ∧
    Event.refusedToLeave ∉ events

theorem runs_pure (a : α) : Runs before (pure a) a before [] := by
  rintro ⟨types, scopes, events⟩ rfl
  exact ⟨[], rfl, rfl, by simp⟩

theorem Runs.bind {m : Infer α} {k : α → Infer β} {a : α} {b : β}
    (hm : Runs before m a middle first) (hk : Runs middle (k a) b after second) :
    Runs before (m >>= k) b after (first ++ second) := by
  intro s hs
  obtain ⟨early, he, hre, hne⟩ := hm s hs
  obtain ⟨late, hl, hrl, hnl⟩ := hk ⟨_, _, early ++ s.events⟩ rfl
  refine ⟨late ++ early, ?_, ?_, ?_⟩
  · have hbind : (m >>= k) s = k (m s).1 (m s).2 := rfl
    rw [hbind, he, hl, List.foldl_append, List.append_assoc]
  · simp [hre, hrl]
  · simp [hne, hnl]

/-- A last step that visits nothing. -/
theorem Runs.bind_silent {m : Infer α} {k : α → Infer β} {a : α} {b : β}
    (hm : Runs before m a middle first) (hk : Runs middle (k a) b after []) :
    Runs before (m >>= k) b after first := by
  have h := hm.bind hk
  rwa [List.append_nil] at h

theorem Runs.answer {m : Infer α} {a : α} (hm : Runs before m a after first) (b : β) :
    Runs before (m >>= fun _ => pure b) b after first :=
  hm.bind_silent (runs_pure b)

/-- Only the findings of the visits matter. -/
theorem Runs.of_findings {m : Infer α} {a : α} (hm : Runs before m a after first)
    (hf : first.filterMap Visit.finding? = second.filterMap Visit.finding?) :
    Runs before m a after second := by
  intro s hs
  obtain ⟨events, he, hr, hn⟩ := hm s hs
  refine ⟨events, ?_, hr.trans hf, hn⟩
  rw [he, Visit.foldl_record, Visit.foldl_record, hf]

theorem runs_note (event : Event) (hr : event.recorded? = none) (hl : event ≠ .refusedToLeave) :
    Runs before (note event) () before [] := by
  rintro ⟨types, scopes, events⟩ rfl
  exact ⟨[event], rfl, by simp [hr], by simpa using hl.symm⟩

theorem runs_scopes (f : Scopes → α) :
    Runs before (do return f (← get).scopes) (f before) before [] := by
  rintro ⟨types, scopes, events⟩ rfl
  exact ⟨[], rfl, rfl, by simp⟩

theorem runs_bind (name : String) (ty : Ty) :
    Runs before (Infer.bind name ty) () (before.bind name ty) [] := by
  rintro ⟨types, scopes, events⟩ rfl
  exact ⟨[], rfl, rfl, by simp⟩

theorem runs_declare (name : String) :
    Runs before (declare name) () (before.declare name) [] := by
  rintro ⟨types, scopes, events⟩ rfl
  exact ⟨[], rfl, rfl, by simp⟩

theorem runs_enter (function : String) :
    Runs before (enter function) () (before.push function) [] := by
  rintro ⟨types, scopes, events⟩ rfl
  exact ⟨[.entered function scopes.depth], rfl, rfl, by simp⟩

/-- Leaving a scope brings back the scopes around it. -/
theorem runs_leave (h : before.outer = after.toList) : Runs before leave () after [] := by
  rintro ⟨types, ⟨innermost, outer⟩, events⟩ rfl
  obtain rfl : outer = after.toList := h
  exact ⟨[.left innermost.function innermost.typed.size], rfl, rfl, by simp⟩

/-- The answer for an expression is recorded, if there is one. -/
theorem runs_record (v : Visit) :
    Runs before
      (do
        if let some ty := v.ty? then
          record v.expr.id ty
        return v.ty?)
      v.ty? before [v] := by
  rintro ⟨types, scopes, events⟩ rfl
  cases h : v.ty? with
  | none => exact ⟨[], by simp [Visit.record, h]; rfl, by simp [Visit.finding?, h], by simp⟩
  | some ty =>
    refine ⟨[.recorded v.expr.id ty], ?_, by simp [Visit.finding?, h, Event.recorded?], by simp⟩
    simp [Visit.record, h]
    rfl

/-- Started in the scopes `before`, `m` changes the innermost scope alone, and leaves the names
standing as in `env`. -/
def Changes (before : Scopes) (m : Infer Unit) (env : Environment) (visits : List Visit) : Prop :=
  ∃ after, Runs before m () after visits ∧ after.outer = before.outer ∧ after.environment = env

theorem Runs.changes {m : Infer Unit} (h : Runs before m () before first) :
    Changes before m before.environment first :=
  ⟨before, h, rfl, rfl⟩

theorem Runs.bind_changes {m : Infer α} {k : α → Infer Unit} {a : α}
    (hm : Runs before m a before first) (hk : Changes before (k a) env second) :
    Changes before (m >>= k) env (first ++ second) := by
  obtain ⟨after, hr, ho, he⟩ := hk
  exact ⟨after, hm.bind hr, ho, he⟩

theorem Changes.bind {m : Infer Unit} {k : Unit → Infer Unit} (hm : Changes before m env first)
    (hk : ∀ middle : Scopes, middle.environment = env → Changes middle (k ()) env' second) :
    Changes before (m >>= k) env' (first ++ second) := by
  obtain ⟨middle, hr, ho, he⟩ := hm
  obtain ⟨after, hr', ho', he'⟩ := hk middle he
  exact ⟨after, hr.bind hr', ho'.trans ho, he'⟩

/-- What happens in a scope of its own leaves the scopes around it as they were. -/
theorem Changes.scoped {m : Infer Unit} {function : String}
    (hm : Changes (before.push function) m env first) :
    ∃ inner : Scopes, inner.environment = env ∧ Runs inner leave () before [] ∧
      Runs (before.push function) m () inner first := by
  obtain ⟨inner, hr, ho, he⟩ := hm
  exact ⟨inner, he, runs_leave ho, hr⟩

theorem changes_declare (name : String) :
    Changes before (declare name) (Function.update before.environment name .declared) [] :=
  ⟨_, runs_declare name, rfl, by simp⟩

end Infer

end BuildTyping
