import Mathlib.Data.Finset.Card
import Mathlib.Data.Finset.Dedup
import Mathlib.Data.List.TakeWhile

/-!
# Open blocks and the widths of the lines

The open blocks are a stack of widths that each line changes. Which widths are on it can be said
without a stack: those that some line has while no line since is narrower.
-/

namespace BuildTyping

/-- Some line is as wide, and no line since is narrower. -/
def Lasts (widths : List Nat) (w : Nat) : Prop :=
  ∃ before since, widths = before ++ w :: since ∧ ∀ u ∈ since, w ≤ u

/-- A line of this width is narrower than the line before it, but neither at the margin nor as
wide as a line that lasts. -/
def Misfit (widths : List Nat) (w : Nat) : Prop :=
  w < widths.getLastD 0 ∧ w ≠ 0 ∧ ¬Lasts widths w

variable {widths : List Nat} {u v w : Nat}

theorem not_lasts_nil : ¬Lasts [] w := by
  rintro ⟨before, since, h, -⟩
  simp at h

theorem lasts_cons : Lasts (u :: widths) w ↔ (u = w ∧ ∀ v ∈ widths, w ≤ v) ∨ Lasts widths w := by
  constructor
  · rintro ⟨before, since, h, hsince⟩
    cases before with
    | nil =>
      obtain ⟨rfl, rfl⟩ := List.cons.inj h
      exact .inl ⟨rfl, hsince⟩
    | cons b before =>
      obtain ⟨-, rfl⟩ := List.cons.inj h
      exact .inr ⟨before, since, rfl, hsince⟩
  · rintro (⟨rfl, hwidths⟩ | ⟨before, since, rfl, hsince⟩)
    · exact ⟨[], widths, rfl, hwidths⟩
    · exact ⟨u :: before, since, rfl, hsince⟩

/-- The next line lasts itself, and ends what is wider. -/
theorem lasts_concat : Lasts (widths ++ [u]) w ↔ w = u ∨ Lasts widths w ∧ w ≤ u := by
  induction widths with
  | nil => simp [lasts_cons, not_lasts_nil, eq_comm]
  | cons v widths ih =>
    rw [List.cons_append, lasts_cons, ih, lasts_cons, List.forall_mem_append,
      List.forall_mem_singleton]
    constructor
    · rintro (⟨rfl, hwidths, hu⟩ | rfl | ⟨hlasts, hu⟩)
      · exact .inr ⟨.inl ⟨rfl, hwidths⟩, hu⟩
      · exact .inl rfl
      · exact .inr ⟨.inr hlasts, hu⟩
    · rintro (rfl | ⟨⟨rfl, hwidths⟩ | hlasts, hu⟩)
      · exact .inr (.inl rfl)
      · exact .inl ⟨rfl, hwidths, hu⟩
      · exact .inr (.inr ⟨hlasts, hu⟩)

instance Lasts.decidable : (widths : List Nat) → (w : Nat) → Decidable (Lasts widths w)
  | [], _ => isFalse not_lasts_nil
  | _ :: widths, w =>
    have := Lasts.decidable widths w
    decidable_of_iff _ lasts_cons.symm

instance (widths : List Nat) (w : Nat) : Decidable (Misfit widths w) :=
  inferInstanceAs (Decidable (_ ∧ _ ∧ _))

/-- A line may be as wide as one that lasts, but not as wide as one that a narrower line ended. -/
example : ¬Misfit [0, 4, 8] 4 ∧ Misfit [0, 4, 0, 8] 4 := by decide

theorem Lasts.mem (h : Lasts widths w) : w ∈ widths := by
  obtain ⟨before, since, rfl, -⟩ := h
  simp

/-- The different positive widths that last. -/
def openWidths (widths : List Nat) : Finset Nat :=
  widths.toFinset.filter fun w => 0 < w ∧ Lasts widths w

theorem mem_openWidths : w ∈ openWidths widths ↔ 0 < w ∧ Lasts widths w := by
  rw [openWidths, Finset.mem_filter, List.mem_toFinset]
  exact ⟨And.right, fun h => ⟨h.2.mem, h⟩⟩

/-- What a line of this width makes of the open blocks, the innermost first. A wider line begins
a block, and any other ends the blocks that are wider than it. -/
inductive Restacks (w : Nat) : List Nat → List Nat → Prop where
  | indent {blocks : List Nat} (wider : blocks.headD 0 < w) : Restacks w blocks (w :: blocks)
  | dedent {inner outer : List Nat} (wider : ∀ v ∈ inner, w < v) (same : outer.headD 0 = w) :
      Restacks w (inner ++ outer) outer

/-- The blocks that a line ends are those up to the first that is not wider. -/
theorem restacks_iff {blocks blocks' : List Nat} : Restacks w blocks blocks' ↔
    (blocks.headD 0 < w ∧ blocks' = w :: blocks) ∨
      (blocks.dropWhile (w < ·)).headD 0 = w ∧ blocks' = blocks.dropWhile (w < ·) := by
  constructor
  · intro h
    cases h with
    | indent wider => exact .inl ⟨wider, rfl⟩
    | @dedent inner _ wider same =>
      have hinner : ∀ v ∈ inner, decide (w < v) = true := by simpa using wider
      have houter : blocks'.dropWhile (w < ·) = blocks' := by
        cases blocks' with
        | nil => rfl
        | cons b outer =>
          obtain rfl : b = w := same
          simp
      rw [List.dropWhile_append_of_pos hinner, houter]
      exact .inr ⟨same, rfl⟩
  · rintro (⟨wider, rfl⟩ | ⟨same, rfl⟩)
    · exact .indent wider
    · have wider : ∀ v ∈ blocks.takeWhile (w < ·), w < v := fun v hv => by
        simpa using List.mem_takeWhile_imp hv
      have hstack := Restacks.dedent wider same
      rwa [List.takeWhile_append_dropWhile] at hstack

/-- After a line its width is the innermost. -/
theorem Restacks.headD {blocks blocks' : List Nat} (h : Restacks w blocks blocks') :
    blocks'.headD 0 = w := by
  cases h with
  | indent => rfl
  | dedent _ same => exact same

theorem le_headD_of_sorted {blocks : List Nat} (h : blocks.Pairwise (· > ·)) (hv : v ∈ blocks) :
    v ≤ blocks.headD 0 := by
  cases h with
  | nil => simp at hv
  | cons hb =>
    rcases List.mem_cons.1 hv with rfl | hv
    · exact Nat.le_refl _
    · exact Nat.le_of_lt (hb v hv)

/-- The open blocks are the positive widths that last, the innermost first. -/
structure Tracks (widths blocks : List Nat) : Prop where
  sorted : blocks.Pairwise (· > ·)
  mem_iff : ∀ w, w ∈ blocks ↔ 0 < w ∧ Lasts widths w

namespace Tracks

variable {blocks blocks' : List Nat}

theorem nil : Tracks [] [] := ⟨.nil, fun w => by simp [not_lasts_nil]⟩

theorem length (h : Tracks widths blocks) : blocks.length = (openWidths widths).card := by
  have hnodup : blocks.Nodup := h.sorted.imp fun hlt => Nat.ne_of_gt hlt
  rw [← List.toFinset_card_of_nodup hnodup]
  congr 1
  ext w
  rw [List.mem_toFinset, h.mem_iff, mem_openWidths]

/-- The innermost block is as wide as the last line. -/
theorem headD_eq (h : Tracks widths blocks) : blocks.headD 0 = widths.getLastD 0 := by
  rcases List.eq_nil_or_concat' widths with rfl | ⟨us, w, rfl⟩
  · cases blocks with
    | nil => rfl
    | cons b blocks => exact absurd ((h.mem_iff b).1 (by simp)).2 not_lasts_nil
  · have hle (v : Nat) (hv : v ∈ blocks) : v ≤ w := by
      rcases lasts_concat.1 ((h.mem_iff v).1 hv).2 with rfl | ⟨-, hvw⟩
      · exact Nat.le_refl _
      · exact hvw
    have hw (hpos : 0 < w) : w ∈ blocks := (h.mem_iff w).2 ⟨hpos, lasts_concat.2 (.inl rfl)⟩
    rw [List.getLastD_concat]
    cases blocks with
    | nil => simpa [eq_comm] using hw
    | cons b blocks =>
      have hbw := hle b (by simp)
      have hbpos := ((h.mem_iff b).1 (by simp)).1
      have hwb : w ≤ b := le_headD_of_sorted h.sorted (hw (by omega))
      exact Nat.le_antisymm hbw hwb

/-- The blocks after a line are those that last with its width. -/
theorem restacks (h : Tracks widths blocks) (hstack : Restacks w blocks blocks') :
    Tracks (widths ++ [w]) blocks' := by
  cases hstack with
  | indent wider =>
    have hlt (v : Nat) (hv : v ∈ blocks) : v < w :=
      Nat.lt_of_le_of_lt (le_headD_of_sorted h.sorted hv) wider
    refine ⟨.cons hlt h.sorted, fun v => ?_⟩
    rw [List.mem_cons, lasts_concat, h.mem_iff]
    constructor
    · rintro (rfl | hv)
      · exact ⟨by omega, .inl rfl⟩
      · exact ⟨hv.1, .inr ⟨hv.2, Nat.le_of_lt (hlt v ((h.mem_iff v).2 hv))⟩⟩
    · rintro ⟨hpos, rfl | ⟨hv, -⟩⟩
      · exact .inl rfl
      · exact .inr ⟨hpos, hv⟩
  | @dedent inner _ wider same =>
    obtain ⟨-, sorted, -⟩ := List.pairwise_append.1 h.sorted
    refine ⟨sorted, fun v => ?_⟩
    have hmem : v ∈ inner ∨ v ∈ blocks' ↔ 0 < v ∧ Lasts widths v := by
      rw [← List.mem_append, h.mem_iff]
    rw [lasts_concat]
    constructor
    · intro hv
      obtain ⟨hpos, hlasts⟩ := hmem.1 (.inr hv)
      exact ⟨hpos, .inr ⟨hlasts, same ▸ le_headD_of_sorted sorted hv⟩⟩
    · rintro ⟨hpos, rfl | ⟨hlasts, hle⟩⟩
      · cases blocks' with
        | nil =>
          simp only [List.headD_nil] at same
          omega
        | cons b outer => simp [← same]
      · refine (hmem.2 ⟨hpos, hlasts⟩).resolve_left fun hv => ?_
        have := wider v hv
        omega

/-- A line at the margin ends all blocks. -/
theorem margin (h : Tracks widths blocks) : Restacks 0 blocks [] := by
  have hstack : Restacks 0 (blocks ++ []) [] := .dedent (fun v hv => ((h.mem_iff v).1 hv).1) rfl
  rwa [List.append_nil] at hstack

/-- A line is a misfit where nothing can be made of the open blocks. -/
theorem misfit_iff (h : Tracks widths blocks) :
    Misfit widths w ↔ ¬∃ blocks', Restacks w blocks blocks' := by
  rw [Misfit, ← h.headD_eq]
  constructor
  · rintro ⟨hlt, hne, hlasts⟩ ⟨blocks', hstack⟩
    cases hstack with
    | indent wider => omega
    | dedent wider same =>
      cases blocks' with
      | nil => exact hne same.symm
      | cons b outer =>
        obtain rfl : b = w := same
        exact hlasts ((h.mem_iff b).1 (by simp)).2
  · intro hnone
    have hne : w ≠ 0 := by
      rintro rfl
      exact hnone ⟨[], h.margin⟩
    refine ⟨?_, hne, fun hlasts => ?_⟩
    · rcases Nat.lt_trichotomy w (blocks.headD 0) with hlt | heq | hgt
      · exact hlt
      · have hstack : Restacks w ([] ++ blocks) blocks := .dedent (by simp) heq.symm
        exact absurd ⟨blocks, hstack⟩ hnone
      · exact absurd ⟨w :: blocks, .indent hgt⟩ hnone
    · have hmem : w ∈ blocks := (h.mem_iff w).2 ⟨Nat.pos_of_ne_zero hne, hlasts⟩
      obtain ⟨inner, outer, rfl⟩ := List.append_of_mem hmem
      refine hnone ⟨w :: outer, .dedent (fun v hv => ?_) rfl⟩
      exact (List.pairwise_append.1 h.sorted).2.2 v hv w (by simp)

end Tracks

end BuildTyping
