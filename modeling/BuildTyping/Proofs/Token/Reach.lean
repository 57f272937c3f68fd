import BuildTyping.Proofs.Token.Tiling

/-!
# The way of a scanner

How far a scanner has come, with the tokens that it has emitted. The run goes on from there.
-/

namespace BuildTyping.Scanner

variable {source : List Char} {s s' m : Scanner} {ts us : List Token} {fault : Fault}

/-- Steps from one scanner to another, with the tokens that they emit. -/
inductive Reaches : Scanner → List Token → Scanner → Prop where
  | refl (s : Scanner) : Reaches s [] s
  | step {s s' m : Scanner} {ts us : List Token} (first : s.step = .ok (ts, s'))
      (more : Reaches s' us m) : Reaches s (ts ++ us) m

namespace Reaches

theorem single (h : s.step = .ok (ts, s')) : Reaches s ts s' := by
  simpa using Reaches.step h (.refl s')

theorem trans (h : Reaches s ts s') (h' : Reaches s' us m) : Reaches s (ts ++ us) m := by
  induction h with
  | refl => exact h'
  | step first _ ih =>
    rw [List.append_assoc]
    exact .step first (ih h')

/-- The run from a place is what is left of the run that leads to it. -/
theorem run (h : Reaches s ts m) : s.run = m.run.map (ts ++ ·) := by
  induction h with
  | refl s => cases s.run <;> simp [Except.map]
  | @step s s' m ts us first _ ih =>
    rw [run_step (rest_ne_nil_of_step first), first]
    simp only [ih]
    cases m.run <;> simp [Except.map]

theorem run_ok (h : Reaches s ts m) (hrun : m.run = .ok us) : s.run = .ok (ts ++ us) := by
  rw [h.run, hrun]
  rfl

theorem run_error_iff (h : Reaches s ts m) : s.run = .error fault ↔ m.run = .error fault := by
  rw [h.run]
  cases m.run <;> simp [Except.map]

theorem stands (h : Reaches s ts m) (hs : At source s) : At source m := by
  induction h with
  | refl => exact hs
  | step first _ ih => exact ih (step_fills hs first).1

theorem offset_le (h : Reaches s ts m) (hs : At source s) : s.offset ≤ m.offset := by
  induction h with
  | refl => exact Nat.le_refl _
  | step first _ ih =>
    obtain ⟨hs', -, hfills⟩ := step_fills hs first
    exact Nat.le_trans hfills.tiles.le (ih hs')

end Reaches

/-- A run that ends well comes to the end of the source. -/
theorem exists_finish (h : s.run = .ok ts) :
    ∃ us m, Reaches s us m ∧ m.rest = [] ∧ ts = us ++ m.finish := by
  induction h using run_induction with
  | finish s hr => exact ⟨[], s, .refl s, hr, rfl⟩
  | step s first s' more hr hstep hrun ih =>
    obtain ⟨us, m, hreach, hm, rfl⟩ := ih
    exact ⟨first ++ us, m, .step hstep hreach, hm, by simp⟩

end BuildTyping.Scanner
