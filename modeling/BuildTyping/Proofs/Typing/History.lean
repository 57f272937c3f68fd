import BuildTyping.Proofs.Text.Slice
import BuildTyping.Typing.Scope
import Mathlib.Data.List.Infix

/-!
# Histories of scopes

What is done to scopes, step by step, and what of it counts for a name in the end: the steps in
scopes that are still open. Histories are taken apart from their end, where the last step may leave
a scope that was entered at some place before.
-/

namespace BuildTyping

/-- What is done to scopes. -/
inductive ScopeStep where
  | push (function : String)
  | pop
  | bind (name : String) (ty : Ty)
  | declare (name : String)
  deriving DecidableEq, Repr

namespace ScopeStep

def isPush : ScopeStep → Bool
  | push _ => true
  | _ => false

/-- The name that a step binds or declares. -/
def name? : ScopeStep → Option String
  | bind name _ | declare name => some name
  | push _ | pop => none

/-- The type that a step gives to its name. -/
def ty? : ScopeStep → Option Ty
  | bind _ ty => some ty
  | push _ | pop | declare _ => none

end ScopeStep

/-- The earliest step first. -/
abbrev History := List ScopeStep

namespace History

def pushes (history : History) : Nat := history.countP ScopeStep.isPush

def pops (history : History) : Nat := history.count .pop

/-- How deep the scopes are nested after a history. -/
def depth (history : History) : Nat := 1 + history.pushes - history.pops

/-- The scope in which the steps begin is never left: no beginning of them pops more scopes than
it pushes. -/
def StaysWithin (steps : History) : Prop :=
  ∀ part : History, part <+: steps → part.pops ≤ part.pushes

instance (steps : History) : Decidable steps.StaysWithin :=
  decidable_of_iff (∀ part ∈ steps.inits, pops part ≤ pushes part) (by
    simp only [StaysWithin, List.mem_inits])

/-- Steps within a scope that leave all scopes again that they enter. -/
structure Closed (steps : History) : Prop where
  stays : steps.StaysWithin
  level : steps.pops = steps.pushes

/-- A step of a history, behind the steps before it, binds or declares a name in a scope that is
still open at the end. -/
def Counts (history : History) (name : String) (before : History) (step : ScopeStep) : Prop :=
  ∃ after : History,
    history = before ++ step :: after ∧ step.name? = some name ∧ after.StaysWithin

/-- Of the steps that count for a name, the last one in the innermost scope that has one. -/
structure Decides (history : History) (name : String) (before : History) (step : ScopeStep) :
    Prop where
  counts : history.Counts name before step
  last {before' : History} {step' : ScopeStep} (other : history.Counts name before' step') :
    before'.depth < before.depth ∨ before'.depth = before.depth ∧ before'.length ≤ before.length

/-- The type that a history gives to a name: that of the step which decides, or none if no step
counts. -/
def Gives (history : History) (name : String) (ty : Option Ty) : Prop :=
  (∃ before step, history.Decides name before step ∧ ty = step.ty?) ∨
    (∀ before step, ¬history.Counts name before step) ∧ ty = none

variable {history steps before inner after : History} {step last : ScopeStep}
  {name : String} {ty : Option Ty}

@[simp] theorem pushes_append (as bs : History) : (as ++ bs).pushes = as.pushes + bs.pushes :=
  List.countP_append

@[simp] theorem pops_append (as bs : History) : (as ++ bs).pops = as.pops + bs.pops :=
  List.count_append

@[simp] theorem pushes_push (function : String) (steps : History) :
    pushes (.push function :: steps) = steps.pushes + 1 :=
  List.countP_cons_of_pos rfl

@[simp] theorem pops_push (function : String) (steps : History) :
    pops (.push function :: steps) = steps.pops := by
  simp [pops]

@[simp] theorem pushes_pop (steps : History) : pushes (steps ++ [.pop]) = steps.pushes :=
  pushes_append steps [.pop]

@[simp] theorem pops_pop (steps : History) : pops (steps ++ [.pop]) = steps.pops + 1 :=
  pops_append steps [.pop]

theorem pushes_of_name? (h : step.name? = some name) (steps : History) :
    pushes (step :: steps) = steps.pushes := by
  cases step <;> simp_all [pushes, ScopeStep.isPush, ScopeStep.name?]

theorem pops_of_name? (h : step.name? = some name) (steps : History) :
    pops (step :: steps) = steps.pops := by
  cases step <;> simp_all [pops, ScopeStep.name?]

theorem staysWithin_iff :
    steps.StaysWithin ↔ ∀ as bs, steps = as ++ bs → pops as ≤ pushes as := by
  constructor
  · rintro h as bs rfl
    exact h as (List.prefix_append as bs)
  · rintro h part ⟨rest, rfl⟩
    exact h part rest rfl

namespace StaysWithin

theorem nil : StaysWithin [] := by decide

theorem left (h : (before ++ after).StaysWithin) : before.StaysWithin := by
  refine staysWithin_iff.2 ?_
  rintro as bs rfl
  exact staysWithin_iff.1 h as (bs ++ after) (List.append_assoc ..)

theorem le (h : steps.StaysWithin) : steps.pops ≤ steps.pushes :=
  staysWithin_iff.1 h steps [] (List.append_nil steps).symm

theorem append (h : before.StaysWithin) (h' : after.StaysWithin) :
    (before ++ after).StaysWithin := by
  refine staysWithin_iff.2 fun as bs happend => ?_
  rcases List.append_eq_append_iff.1 happend with ⟨cs, rfl, hafter⟩ | ⟨cs, hbefore, -⟩
  · have hle := staysWithin_iff.1 h' cs bs hafter
    have := h.le
    rw [pops_append, pushes_append]
    omega
  · exact staysWithin_iff.1 h as cs hbefore

end StaysWithin

theorem staysWithin_concat :
    (steps ++ [step]).StaysWithin ↔
      steps.StaysWithin ∧ (steps ++ [step]).pops ≤ (steps ++ [step]).pushes := by
  refine ⟨fun h => ⟨h.left, h.le⟩, fun ⟨h, hle⟩ => staysWithin_iff.2 fun as bs happend => ?_⟩
  rcases List.eq_nil_or_concat bs with rfl | ⟨bs, b, rfl⟩
  · rw [List.append_nil] at happend
    rwa [← happend]
  · rw [List.concat_eq_append, ← List.append_assoc] at happend
    exact staysWithin_iff.1 h as bs (List.append_inj_left' happend rfl)

theorem staysWithin_concat_of_ne (h : step ≠ .pop) :
    (steps ++ [step]).StaysWithin ↔ steps.StaysWithin := by
  refine staysWithin_concat.trans (and_iff_left_of_imp fun hsteps => ?_)
  have hpops : pops [step] = 0 := List.count_singleton.trans (if_neg (by simpa using h))
  have hle := hsteps.le
  rw [pops_append, pushes_append, hpops]
  omega

namespace Closed

theorem nil : Closed [] := ⟨.nil, rfl⟩

/-- Names are bound and declared without a change of scope. -/
theorem single (h : step.name? = some name) : Closed [step] := by
  have hne : step ≠ .pop := by
    rintro rfl
    simp [ScopeStep.name?] at h
  have hstays : StaysWithin ([] ++ [step]) := (staysWithin_concat_of_ne hne).2 .nil
  refine ⟨hstays, ?_⟩
  rw [pops_of_name? h, pushes_of_name? h]
  rfl

theorem append (h : before.Closed) (h' : after.Closed) : (before ++ after).Closed :=
  ⟨h.stays.append h'.stays, by rw [pops_append, pushes_append, h.level, h'.level]⟩

/-- What is done in a scope that is entered and left again. -/
theorem block (function : String) (h : inner.Closed) :
    Closed (.push function :: (inner ++ [.pop])) := by
  have hpush : StaysWithin ([] ++ [.push function]) :=
    (staysWithin_concat_of_ne (by simp)).2 .nil
  have hcounts : pops (.push function :: (inner ++ [.pop])) =
      pushes (.push function :: (inner ++ [.pop])) := by
    rw [pops_push, pushes_push, pops_pop, pushes_pop, h.level]
  exact ⟨staysWithin_concat.2 ⟨hpush.append h.stays, hcounts.le⟩, hcounts⟩

/-- A scope that is left behind closed steps was entered before any of them. -/
theorem not_staysWithin (h : (before ++ after).Closed) : ¬StaysWithin (after ++ [.pop]) := by
  intro hafter
  have hbefore := h.stays.left.le
  have hclosed := h.level
  have hle := hafter.le
  rw [pops_append, pushes_append] at hclosed
  rw [pops_pop, pushes_pop] at hle
  omega

end Closed

/-- The latest scope that is entered and not left. The induction is on the number of steps: where
the last one leaves a scope, another one has been entered before that one. -/
theorem exists_push (h : steps.StaysWithin) (hlt : steps.pops < steps.pushes) :
    ∃ (before : History) (function : String) (inner : History),
      steps = before ++ .push function :: inner ∧ inner.Closed := by
  induction hn : steps.length using Nat.strongRecOn generalizing steps with
  | ind n ih =>
    rcases List.eq_nil_or_concat steps with rfl | ⟨steps, step, rfl⟩
    · simp [pushes] at hlt
    · rw [List.concat_eq_append] at *
      rw [List.length_append, List.length_singleton] at hn
      have further (hstep : Closed [step]) :
          ∃ (before : History) (function : String) (inner : History),
            steps ++ [step] = before ++ .push function :: inner ∧ inner.Closed := by
        rw [pops_append, pushes_append, hstep.level] at hlt
        obtain ⟨before, function, inner, rfl, hinner⟩ :=
          ih steps.length (by omega) h.left (by omega) rfl
        exact ⟨before, function, inner ++ [step], by simp, hinner.append hstep⟩
      cases step with
      | push function => exact ⟨steps, function, [], rfl, .nil⟩
      | bind | declare => exact further (.single rfl)
      | pop =>
        rw [pops_pop, pushes_pop] at hlt
        obtain ⟨before, function, inner, rfl, hinner⟩ :=
          ih steps.length (by omega) h.left (by omega) rfl
        rw [pops_append, pushes_append, pops_push, pushes_push, hinner.level] at hlt
        rw [List.length_append, List.length_cons] at hn
        obtain ⟨before, function', inner', rfl, hinner'⟩ :=
          ih before.length (by omega) h.left.left (by omega) rfl
        exact ⟨before, function', inner' ++ .push function :: (inner ++ [.pop]), by simp,
          hinner'.append (hinner.block function)⟩

/-- A history that ends in leaving a scope goes on from what was before it was entered. -/
@[elab_as_elim]
theorem inductionOnEnd {P : ∀ history : History, history.StaysWithin → Prop} (nil : P [] .nil)
    (step : ∀ (history : History) (last : ScopeStep) (hlast : last ≠ .pop)
      (h : history.StaysWithin), P history h →
        P (history ++ [last]) ((staysWithin_concat_of_ne hlast).2 h))
    (block : ∀ (before : History) (function : String) (inner : History) (hinner : inner.Closed)
      (h : before.StaysWithin), P before h →
        P (before ++ .push function :: (inner ++ [.pop])) (h.append (hinner.block function).stays))
    (history : History) (h : history.StaysWithin) : P history h := by
  induction hn : history.length using Nat.strongRecOn generalizing history with
  | ind n ih =>
    rcases List.eq_nil_or_concat history with rfl | ⟨steps, last, rfl⟩
    · exact nil
    · simp only [List.concat_eq_append] at h hn ⊢
      rw [List.length_append, List.length_singleton] at hn
      by_cases hlast : last = .pop
      · subst hlast
        have hle := h.le
        rw [pops_pop, pushes_pop] at hle
        obtain ⟨before, function, inner, rfl, hinner⟩ := exists_push h.left (by omega)
        rw [List.length_append] at hn
        simp only [List.append_assoc, List.cons_append]
        exact block before function inner hinner h.left.left
          (ih before.length (by omega) before h.left.left rfl)
      · exact step steps last hlast h.left (ih steps.length (by omega) steps h.left rfl)

theorem not_counts_nil : ¬Counts [] name before step := by
  rintro ⟨after, hsplit, -⟩
  simp at hsplit

theorem not_counts_singleton (h : last.name? ≠ some name) : ¬Counts [last] name before step := by
  rintro ⟨after, hsplit, hstep, -⟩
  have hmem : step ∈ [last] := by simp [hsplit]
  exact h (List.mem_singleton.1 hmem ▸ hstep)

/-- Further steps that stay within their scope take nothing away from what counts. -/
theorem counts_append (h : after.StaysWithin) :
    (history ++ after).Counts name before step ↔
      history.Counts name before step ∨ ∃ more, before = history ++ more ∧
        after.Counts name more step := by
  constructor
  · rintro ⟨rest, hsplit, hstep, hrest⟩
    rcases append_eq_append_cons hsplit with ⟨more, rfl, hafter⟩ | ⟨more, hhistory, rfl⟩
    · exact .inr ⟨more, rfl, rest, hafter, hstep, hrest⟩
    · exact .inl ⟨more, hhistory, hstep, hrest.left⟩
  · rintro (⟨rest, rfl, hstep, hrest⟩ | ⟨more, rfl, rest, rfl, hstep, hrest⟩)
    · exact ⟨rest ++ after, by simp, hstep, hrest.append h⟩
    · exact ⟨rest, by simp, hstep, hrest⟩

/-- What was done in a scope counts no more once it has been left. -/
theorem Closed.not_counts (h : inner.Closed) (function : String) :
    ¬Counts (.push function :: (inner ++ [.pop])) name before step := by
  rintro ⟨after, hsplit, hstep, hafter⟩
  rw [← List.cons_append] at hsplit
  rcases append_eq_append_cons hsplit with ⟨more, -, hpop⟩ | ⟨rest, hinner, rfl⟩
  · have hmem : step ∈ [ScopeStep.pop] := by simp [hpop]
    rw [List.mem_singleton.1 hmem] at hstep
    exact nomatch hstep
  · rcases List.cons_eq_append_iff.1 hinner with ⟨-, hcons⟩ | ⟨before, -, rfl⟩
    · rw [(List.cons.inj hcons).1] at hstep
      exact nomatch hstep
    · rw [List.append_cons] at h
      exact h.not_staysWithin hafter

theorem gives_append (h : after.StaysWithin)
    (hafter : ∀ before step, ¬after.Counts name before step) :
    (history ++ after).Gives name ty ↔ history.Gives name ty := by
  have hcounts (before : History) (step : ScopeStep) :
      (history ++ after).Counts name before step ↔ history.Counts name before step := by
    rw [counts_append h, or_iff_left]
    rintro ⟨more, -, hmore⟩
    exact hafter more step hmore
  have hdecides (before : History) (step : ScopeStep) :
      (history ++ after).Decides name before step ↔ history.Decides name before step := by
    constructor
    · exact fun ⟨hc, hlast⟩ => ⟨(hcounts _ _).1 hc, fun other => hlast ((hcounts _ _).2 other)⟩
    · exact fun ⟨hc, hlast⟩ => ⟨(hcounts _ _).2 hc, fun other => hlast ((hcounts _ _).1 other)⟩
  simp only [Gives, hcounts, hdecides]

/-- Steps that count are made in the deeper scopes the later they are made. -/
theorem depth_le (hstep : step.name? = some name) (h : after.StaysWithin) :
    depth before ≤ depth (before ++ step :: after) := by
  have hle := h.le
  rw [depth, depth, pops_append, pushes_append, pops_of_name? hstep, pushes_of_name? hstep]
  omega

theorem decides_concat (h : last.name? = some name) :
    (history ++ [last]).Decides name history last := by
  refine ⟨⟨[], rfl, h, .nil⟩, ?_⟩
  rintro before' step' ⟨after', hsplit, hstep', hafter'⟩
  rcases append_eq_append_cons hsplit with ⟨more, rfl, hlast⟩ | ⟨rest, rfl, rfl⟩
  · have hmore : more = [] := by
      cases more with
      | nil => rfl
      | cons => simp at hlast
    subst hmore
    exact .inr ⟨by rw [List.append_nil], by rw [List.append_nil]⟩
  · have hle : depth before' ≤ depth (before' ++ step' :: rest) := depth_le hstep' hafter'.left
    have hlength : before'.length ≤ (before' ++ step' :: rest).length := by simp
    omega

end History

end BuildTyping
