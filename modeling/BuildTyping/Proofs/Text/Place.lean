import BuildTyping.Proofs.Text.Slice
import BuildTyping.Text.Line
import Mathlib.Data.List.DropRight

/-!
# Places of boundaries

The place of a boundary between two characters is told from the text on either side of it: the
newlines before it number its line, which reaches from behind the last of them to the next.
-/

namespace BuildTyping

/-- The beginning of a line that a text ends with. -/
def lastLine (before : List Char) : List Char := before.rtakeWhile (· ≠ '\n')

/-- The rest of a line that a text begins with, up to and including its newline. -/
def firstLine (after : List Char) : List Char := (lines after).headD []

theorem lastLine_of_notMem {cs : List Char} (h : '\n' ∉ cs) : lastLine cs = cs := by
  refine List.rtakeWhile_eq_self_iff.2 fun c hc => ?_
  simpa using fun he : c = '\n' => h (he ▸ hc)

/-- What stands before a newline is no part of the last line. -/
theorem lastLine_append_newline (as bs : List Char) :
    lastLine (as ++ '\n' :: bs) = lastLine bs := by
  induction bs using List.reverseRecOn with
  | nil => simp [lastLine]
  | append_singleton bs b ih =>
    rw [← List.cons_append, ← List.append_assoc]
    simp only [lastLine, List.rtakeWhile_concat] at ih ⊢
    rw [ih]

theorem firstLine_cons (c : Char) (cs : List Char) : ∃ more, firstLine (c :: cs) = c :: more := by
  rw [firstLine, lines]
  split
  · exact ⟨[], rfl⟩
  · split
    · exact ⟨[], rfl⟩
    · exact ⟨_, rfl⟩

theorem firstLine_ne_nil {cs : List Char} (h : cs ≠ []) : firstLine cs ≠ [] := by
  obtain ⟨c, cs, rfl⟩ := List.exists_cons_of_ne_nil h
  obtain ⟨more, hmore⟩ := firstLine_cons c cs
  simp [hmore]

theorem lines_append_newline {as : List Char} (h : '\n' ∉ as) (bs : List Char) :
    lines (as ++ '\n' :: bs) = (as ++ ['\n']) :: lines bs := by
  induction as with
  | nil => rfl
  | cons a as ih =>
    obtain ⟨ha, has⟩ := not_or.1 (mt List.mem_cons.2 h)
    rw [List.cons_append, lines, if_neg (Ne.symm ha), ih has]
    rfl

/-- Characters before the next newline belong to the first line. -/
theorem lines_append {as : List Char} (h : '\n' ∉ as) (hne : as ≠ []) (bs : List Char) :
    lines (as ++ bs) = (as ++ firstLine bs) :: (lines bs).tail := by
  induction as with
  | nil => exact absurd rfl hne
  | cons a as ih =>
    obtain ⟨ha, has⟩ := not_or.1 (mt List.mem_cons.2 h)
    rw [List.cons_append, lines, if_neg (Ne.symm ha)]
    cases as with
    | nil => cases hl : lines bs <;> simp [firstLine, hl]
    | cons b as =>
      rw [ih has (by simp)]
      rfl

/-- A boundary on the first line. -/
theorem placeFrom_append_of_notMem (number : Nat) {before : List Char} (h : '\n' ∉ before)
    (after : List Char) : placeFrom number (lines (before ++ after)) (byteLength before) =
      some ⟨number, before ++ firstLine after, byteLength before⟩ := by
  by_cases hbefore : before = []
  · subst hbefore
    cases hl : lines after with
    | nil => simp [firstLine, hl, placeFrom]
    | cons line rest =>
      have hne : after ≠ [] := by
        rintro rfl
        simp [lines] at hl
      have hpos : 0 < byteLength line := by
        have hline : line ≠ [] := by simpa [firstLine, hl] using firstLine_ne_nil hne
        have hlength := length_le_byteLength line
        have := List.length_pos_iff.2 hline
        omega
      simp [firstLine, hl, placeFrom, hpos]
  · rw [lines_append h hbefore, placeFrom, if_pos]
    by_cases hfirst : firstLine after = []
    · rw [hfirst, List.append_nil]
      exact .inr ⟨rfl, fun hlast => h (List.mem_of_getLast? hlast)⟩
    · have hlength := length_le_byteLength (firstLine after)
      have := List.length_pos_iff.2 hfirst
      rw [byteLength_append]
      exact .inl (by omega)

/-- What holds of every text without a newline, and of a text whenever it holds of what is behind
the first newline, holds of all texts. -/
@[elab_as_elim]
theorem inductionOnLines {P : List Char → Prop} (last : ∀ cs, '\n' ∉ cs → P cs)
    (line : ∀ as bs, '\n' ∉ as → P bs → P (as ++ '\n' :: bs)) (cs : List Char) : P cs := by
  induction hn : cs.length using Nat.strongRecOn generalizing cs with
  | ind n ih =>
    by_cases hnewline : '\n' ∈ cs
    · obtain ⟨as, bs, rfl, has⟩ := List.eq_append_cons_of_mem hnewline
      exact line as bs has (ih bs.length (by simp [← hn]; omega) bs rfl)
    · exact last cs hnewline

theorem placeFrom_line (number : Nat) {as : List Char} (h : '\n' ∉ as) (bs : List Char)
    {position : Nat} (hle : position ≤ byteLength as) :
    placeFrom number (lines (as ++ '\n' :: bs)) position =
      some ⟨number, as ++ ['\n'], position⟩ := by
  have hlength : byteLength (as ++ ['\n']) = byteLength as + 1 := byteLength_append as ['\n']
  rw [lines_append_newline h, placeFrom, if_pos (.inl (by omega))]

/-- Behind a newline, places are those of the text behind it. -/
theorem placeFrom_behind (number : Nat) {as : List Char} (h : '\n' ∉ as) (bs : List Char)
    (position : Nat) :
    placeFrom number (lines (as ++ '\n' :: bs)) (byteLength as + 1 + position) =
      placeFrom (number + 1) (lines bs) position := by
  have hlength : byteLength (as ++ ['\n']) = byteLength as + 1 := byteLength_append as ['\n']
  rw [lines_append_newline h, placeFrom, if_neg, hlength, Nat.add_sub_cancel_left]
  rw [not_or, List.getLast?_concat, hlength]
  exact ⟨by omega, by simp⟩

/-- The induction goes from line to line of the text before the boundary. -/
theorem placeFrom_append (number : Nat) (before after : List Char) :
    placeFrom number (lines (before ++ after)) (byteLength before) =
      some ⟨number + before.count '\n', lastLine before ++ firstLine after,
        byteLength (lastLine before)⟩ := by
  induction before using inductionOnLines generalizing number with
  | last before hnewline =>
    rw [placeFrom_append_of_notMem number hnewline, lastLine_of_notMem hnewline,
      List.count_eq_zero.2 hnewline]
    rfl
  | line as bs has ih =>
    have hposition : byteLength (as ++ '\n' :: bs) = byteLength as + 1 + byteLength bs := by
      rw [byteLength_append, byteLength_cons, Nat.add_assoc]
      rfl
    rw [List.append_assoc, List.cons_append, hposition, placeFrom_behind number has,
      ih (number + 1), lastLine_append_newline, List.count_append, List.count_eq_zero.2 has,
      List.count_cons_self, Nat.zero_add, Nat.add_assoc, Nat.add_comm 1]

theorem place?_append (before after : List Char) :
    place? (before ++ after) (byteLength before) =
      some ⟨1 + before.count '\n', lastLine before ++ firstLine after,
        byteLength (lastLine before)⟩ :=
  placeFrom_append 1 before after

/-- The line of a boundary before a character among the lines of the text: as many lines come
before it as there are newlines, and what is before the boundary is those lines and the beginning
of this one. -/
theorem lines_append_eq (before : List Char) {after : List Char} (h : after ≠ []) :
    ∃ earlier later, lines (before ++ after) =
        earlier ++ (lastLine before ++ firstLine after) :: later ∧
      earlier.length = before.count '\n' ∧ earlier.flatten ++ lastLine before = before := by
  induction before using inductionOnLines with
  | last before hnewline =>
    refine ⟨[], (lines after).tail, ?_, (List.count_eq_zero.2 hnewline).symm, ?_⟩
    · rw [lastLine_of_notMem hnewline, List.nil_append]
      by_cases hbefore : before = []
      · obtain ⟨line, ls, hl⟩ := List.exists_cons_of_ne_nil (show lines after ≠ [] by
          intro hl
          exact firstLine_ne_nil h (by rw [firstLine, hl]; rfl))
        simp [hbefore, firstLine, hl]
      · exact lines_append hnewline hbefore after
    · rw [lastLine_of_notMem hnewline, List.flatten_nil, List.nil_append]
  | line as bs has ih =>
    obtain ⟨earlier, later, hlines, hcount, hflatten⟩ := ih
    refine ⟨(as ++ ['\n']) :: earlier, later, ?_, ?_, ?_⟩
    · rw [List.append_assoc, List.cons_append, lines_append_newline has, hlines,
        lastLine_append_newline, List.cons_append]
    · rw [List.length_cons, hcount, List.count_append, List.count_eq_zero.2 has,
        List.count_cons_self, Nat.zero_add]
    · rw [lastLine_append_newline, List.flatten_cons, List.append_assoc, hflatten]
      simp

/-- The number of its line and the number of characters before it on the line lead to a character
of a text, and nowhere else. -/
theorem exists_line (before : List Char) (c : Char) (after : List Char) :
    ∃ row, (lines (before ++ c :: after))[before.count '\n']? = some row ∧
      row[(lastLine before).length]? = some c ∧
      before = ((lines (before ++ c :: after)).take (before.count '\n')).flatten ++
        row.take (lastLine before).length := by
  obtain ⟨earlier, later, hlines, hcount, hflatten⟩ :=
    lines_append_eq before (List.cons_ne_nil c after)
  obtain ⟨more, hmore⟩ := firstLine_cons c after
  rw [hmore] at hlines
  refine ⟨lastLine before ++ c :: more, ?_, ?_, ?_⟩
  · rw [hlines, ← hcount, List.getElem?_append_right (Nat.le_refl _), Nat.sub_self]
    rfl
  · rw [List.getElem?_append_right (Nat.le_refl _), Nat.sub_self]
    rfl
  · rw [hlines, ← hcount, List.take_left, List.take_left, hflatten]

end BuildTyping
