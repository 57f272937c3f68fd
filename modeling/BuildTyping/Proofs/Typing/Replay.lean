import BuildTyping.Proofs.Typing.History
import BuildTyping.Proofs.Typing.Scoping

/-!
# Scopes and their history

The scopes that a history leaves are told from the history alone: how deep they are nested, and
which type each name has.
-/

namespace BuildTyping

namespace Scope

/-- No name is typed and declared at once. -/
def Exclusive (scope : Scope) : Prop := ∀ name ∈ scope.typed, name ∉ scope.declared

theorem exclusive_empty (function : Option String) : (empty function).Exclusive := by
  intro name hname
  simp [empty] at hname

theorem Exclusive.bind {scope : Scope} (h : scope.Exclusive) (name : String) (ty : Ty) :
    (scope.bind name ty).Exclusive := by
  intro other hother hdeclared
  simp only [Scope.bind, setType, dropDeclared, Std.TreeMap.mem_insert] at hother
  simp only [Scope.bind, setType, dropDeclared, Std.TreeSet.mem_erase] at hdeclared
  exact hother.elim hdeclared.1 fun hmem => h other hmem hdeclared.2

theorem Exclusive.declare {scope : Scope} (h : scope.Exclusive) (name : String) :
    (scope.declare name).Exclusive := by
  intro other hother hdeclared
  simp only [Scope.declare, setDeclared, dropType, Std.TreeMap.mem_erase] at hother
  simp only [Scope.declare, setDeclared, dropType, Std.TreeSet.mem_insert] at hdeclared
  exact hdeclared.elim hother.1 fun hmem => h other hother.2 hmem

end Scope

namespace Scopes

/-- The outermost scope cannot be left. -/
def step (scopes : Scopes) : ScopeStep → Option Scopes
  | .push function => some (scopes.push function)
  | .pop => scopes.pop?.map Prod.snd
  | .bind name ty => some (scopes.bind name ty)
  | .declare name => some (scopes.declare name)

def run (scopes : Scopes) (history : History) : Option Scopes := history.foldlM step scopes

variable {scopes scopes' : Scopes} {history steps inner : History}

theorem run_append (scopes : Scopes) (as bs : History) :
    scopes.run (as ++ bs) = (scopes.run as).bind fun scopes' => scopes'.run bs :=
  List.foldlM_append

theorem run_cons (scopes : Scopes) (s : ScopeStep) (history : History) :
    scopes.run (s :: history) = (scopes.step s).bind fun scopes' => scopes'.run history :=
  List.foldlM_cons

theorem run_singleton (scopes : Scopes) (s : ScopeStep) : scopes.run [s] = scopes.step s := by
  simp [run]

/-- What a step keeps, a history keeps. -/
theorem run_preserves {P : Scopes → Prop}
    (hstep : ∀ scopes scopes' s, P scopes → step scopes s = some scopes' → P scopes')
    (h : P scopes) (hrun : scopes.run history = some scopes') : P scopes' := by
  induction history generalizing scopes with
  | nil => exact Option.some.inj hrun ▸ h
  | cons s history ih =>
    rw [run_cons, Option.bind_eq_some_iff] at hrun
    obtain ⟨mid, hmid, hrun⟩ := hrun
    exact ih (hstep scopes mid s h hmid) hrun

theorem exclusive_step (s : ScopeStep) (h : ∀ scope ∈ scopes.toList, scope.Exclusive)
    (hstep : scopes.step s = some scopes') : ∀ scope ∈ scopes'.toList, scope.Exclusive := by
  obtain ⟨innermost, outer⟩ := scopes
  rw [toList, List.forall_mem_cons] at h
  cases s with
  | push function =>
    rw [← Option.some.inj hstep]
    exact List.forall_mem_cons.2 ⟨Scope.exclusive_empty _, List.forall_mem_cons.2 h⟩
  | pop =>
    cases outer with
    | nil => simp [step, pop?] at hstep
    | cons scope outer =>
      rw [← Option.some.inj hstep]
      exact h.2
  | bind name ty =>
    rw [← Option.some.inj hstep]
    exact List.forall_mem_cons.2 ⟨h.1.bind name ty, h.2⟩
  | declare name =>
    rw [← Option.some.inj hstep]
    exact List.forall_mem_cons.2 ⟨h.1.declare name, h.2⟩

/-- Steps that stay within their scope are carried out, and leave the scopes around it as they
are. -/
theorem run_of_staysWithin (scopes : Scopes) (h : steps.StaysWithin) :
    ∃ innermost inner, scopes.run steps = some ⟨innermost, inner ++ scopes.outer⟩ ∧
      inner.length + steps.pops = steps.pushes := by
  induction steps using List.reverseRecOn with
  | nil => exact ⟨scopes.innermost, [], rfl, rfl⟩
  | append_singleton steps s ih =>
    obtain ⟨innermost, inner, hrun, hlength⟩ := ih h.left
    rw [run_append, hrun, Option.bind_some, run_singleton]
    cases s with
    | push function =>
      refine ⟨.empty (some function), innermost :: inner, rfl, ?_⟩
      rw [List.length_cons, History.pops_append, History.pushes_append, History.pushes_push,
        History.pops_push, ← hlength]
      simp only [History.pops, History.pushes, List.count_nil, List.countP_nil]
      omega
    | pop =>
      have hle := h.le
      rw [History.pops_pop, History.pushes_pop] at hle ⊢
      cases inner with
      | nil =>
        rw [List.length_nil] at hlength
        omega
      | cons scope inner =>
        refine ⟨scope, inner, rfl, ?_⟩
        rw [List.length_cons] at hlength
        omega
    | bind name ty =>
      refine ⟨innermost.bind name ty, inner, rfl, ?_⟩
      rw [History.pops_append, History.pushes_append, ← hlength]
      rfl
    | declare name =>
      refine ⟨innermost.declare name, inner, rfl, ?_⟩
      rw [History.pops_append, History.pushes_append, ← hlength]
      rfl

/-- From the start just the histories are carried out that never leave the outermost scope. -/
theorem run_start_isSome_iff :
    (start.run history).isSome = true ↔ history.StaysWithin := by
  refine ⟨fun h => ?_, fun h => ?_⟩
  · induction history using List.reverseRecOn with
    | nil => exact .nil
    | append_singleton history s ih =>
      rw [run_append, Option.isSome_bind, Option.any_eq_true] at h
      obtain ⟨scopes, hrun, hstep⟩ := h
      have hstays : History.StaysWithin history := ih (by rw [hrun, Option.isSome_some])
      by_cases hs : s = .pop
      · subst hs
        obtain ⟨innermost, inner, hrun', hlength⟩ := start.run_of_staysWithin hstays
        have hscopes : scopes = ⟨innermost, inner ++ start.outer⟩ :=
          Option.some.inj (hrun.symm.trans hrun')
        refine History.staysWithin_concat.2 ⟨hstays, ?_⟩
        rw [History.pops_pop, History.pushes_pop]
        -- No scope is left where none is around the innermost one.
        cases inner with
        | nil =>
          rw [hscopes, run_singleton] at hstep
          exact Bool.noConfusion hstep
        | cons scope inner =>
          rw [List.length_cons] at hlength
          omega
      · exact (History.staysWithin_concat_of_ne hs).2 hstays
  · obtain ⟨innermost, inner, hrun, -⟩ := start.run_of_staysWithin h
    rw [hrun, Option.isSome_some]

/-- What is done in a scope that is left again comes to nothing. -/
theorem run_block (scopes : Scopes) (function : String) (h : inner.Closed) :
    scopes.run (.push function :: (inner ++ [.pop])) = some scopes := by
  obtain ⟨innermost, rest, hrun, hlength⟩ := (scopes.push function).run_of_staysWithin h.stays
  have hrest : rest = [] := List.eq_nil_of_length_eq_zero (by have := h.level; omega)
  rw [run_cons, step, Option.bind_some, run_append, hrun, hrest, Option.bind_some]
  rfl

theorem run_append_block (scopes : Scopes) (before : History) (function : String)
    (h : inner.Closed) :
    scopes.run (before ++ .push function :: (inner ++ [.pop])) = scopes.run before := by
  rw [run_append]
  simp only [run_block _ function h]
  exact Option.bind_fun_some _

/-- A step that leaves no scope changes the type of its own name only. -/
theorem lookup_step {s : ScopeStep} (hs : s ≠ .pop) (hstep : scopes.step s = some scopes')
    (name : String) :
    scopes'.lookup name = if s.name? = some name then s.ty? else scopes.lookup name := by
  cases s with
  | push function =>
    rw [← Option.some.inj hstep, lookup_eq, lookup_eq, environment_push]
    rfl
  | pop => exact absurd rfl hs
  | bind other ty =>
    rw [← Option.some.inj hstep, lookup_eq, lookup_eq, environment_bind, Function.update_apply]
    simp only [ScopeStep.name?, ScopeStep.ty?, Option.some.injEq, eq_comm (a := other)]
    split <;> rfl
  | declare other =>
    rw [← Option.some.inj hstep, lookup_eq, lookup_eq, environment_declare, Function.update_apply]
    simp only [ScopeStep.name?, ScopeStep.ty?, Option.some.injEq, eq_comm (a := other)]
    split <;> rfl

/-- The step that decides is the last one that counts. -/
theorem lookup_gives (h : history.StaysWithin) (hrun : start.run history = some scopes)
    (name : String) : history.Gives name (scopes.lookup name) := by
  induction history, h using History.inductionOnEnd generalizing scopes with
  | nil =>
    rw [← Option.some.inj hrun]
    exact .inr ⟨fun _ _ => History.not_counts_nil, by rw [lookup_eq, environment_start]; rfl⟩
  | step history last hlast h ih =>
    rw [run_append, Option.bind_eq_some_iff] at hrun
    obtain ⟨mid, hmid, hstep⟩ := hrun
    rw [run_singleton] at hstep
    rw [lookup_step hlast hstep]
    by_cases hname : last.name? = some name
    · rw [if_pos hname]
      exact .inl ⟨history, last, History.decides_concat hname, rfl⟩
    · have hstays : History.StaysWithin [last] := (History.staysWithin_concat_of_ne hlast).2 .nil
      rw [if_neg hname,
        History.gives_append hstays fun _ _ => History.not_counts_singleton hname]
      exact ih hmid
  | block before function inner hinner h ih =>
    rw [run_append_block start before function hinner] at hrun
    rw [History.gives_append (hinner.block function).stays fun _ _ => hinner.not_counts function]
    exact ih hrun

end Scopes

/-- How scopes stand that a history leaves, told from the history. -/
structure History.Leaves (history : History) (scopes : Scopes) : Prop where
  depth : scopes.depth = 1 + history.pushes - history.pops
  lookup (name : String) : history.Gives name (scopes.lookup name)
  /-- Without all that was done in a scope which has been left, the scopes are the same. -/
  without {before inner after : History} {function : String}
    (split : history = before ++ .push function :: (inner ++ .pop :: after))
    (closed : inner.Closed) : Scopes.start.run (before ++ after) = some scopes
  exclusive : ∀ scope ∈ scopes.toList, scope.Exclusive

/-- A history that never leaves the outermost scope is carried out to its end, and the scopes that
it leaves are told from it. -/
theorem Scopes.run_history (history : History) (h : history.StaysWithin) :
    ∃ scopes, Scopes.start.run history = some scopes ∧ history.Leaves scopes := by
  obtain ⟨innermost, inner, hrun, hlength⟩ := Scopes.start.run_of_staysWithin h
  refine ⟨_, hrun, ?_, Scopes.lookup_gives h hrun, ?_, ?_⟩
  · have hdepth : (Scopes.mk innermost (inner ++ Scopes.start.outer)).depth = inner.length + 1 := by
      simp [Scopes.depth, Scopes.toList, Scopes.start]
    omega
  · rintro before inner after function rfl closed
    have hblock := Scopes.run_append_block Scopes.start before function closed
    rw [← hrun, Scopes.run_append, ← hblock, ← Scopes.run_append]
    simp
  · refine Scopes.run_preserves (fun _ _ s => Scopes.exclusive_step s) ?_ hrun
    exact List.forall_mem_singleton.2 (Scope.exclusive_empty none)

/-- The name is declared in a scope that is open at the end, and typed outside it and in a scope
that has been left. -/
theorem Scopes.run_history_shadowed :
    let history : History :=
      [.bind "x" .int, .push "f", .declare "x", .push "g", .bind "x" .string, .pop]
    history.StaysWithin ∧
      ∃ scopes, Scopes.start.run history = some scopes ∧ history.Leaves scopes :=
  ⟨by decide, Scopes.run_history _ (by decide)⟩

end BuildTyping
