import BuildTyping.Proofs.Token.Arrival
import BuildTyping.Text.Blank

/-!
# Where tokens begin

A token with a text begins at a character that is not white space. The scanner itself knows but
few of the characters of white space, yet no lexeme begins with any of them.
-/

namespace BuildTyping

/-- All characters of white space. -/
def blanks : List Char :=
  blankRanges.flatMap fun range =>
    (List.range' range.1 (range.2 + 1 - range.1)).map Char.ofNat

theorem mem_blanks {c : Char} (h : isBlank c = true) : c ∈ blanks := by
  obtain ⟨range, hrange, hlo, hhi⟩ := (inRanges_iff blankRanges c).1 h
  refine List.mem_flatMap.2 ⟨range, hrange, List.mem_map.2 ⟨c.toNat, ?_, Char.ofNat_toNat c⟩⟩
  rw [List.mem_range'_1]
  omega

namespace Lexeme

theorem begins_blanks : blanks.any begins = false := by decide +kernel

theorem isBlank_eq_false_of_next? {c : Char} {cs : List Char} {lexeme : Lexeme} {n : Nat}
    (h : next? (c :: cs) = some (lexeme, n)) (hgap : lexeme ≠ gap) (hend : lexeme ≠ lineEnd) :
    isBlank c = false := by
  rw [← Bool.not_eq_true]
  intro hblank
  have hc : begins c = false := by
    simpa using List.any_eq_false.1 begins_blanks c (mem_blanks hblank)
  rw [next?_of_begins cs hc] at h
  grind

end Lexeme

/-- In the source a character that is not white space stands at the offset. -/
def VisibleAt (source : List Char) (offset : Nat) : Prop :=
  ∃ before c after, source = before ++ c :: after ∧ byteLength before = offset ∧ isBlank c = false

namespace Scanner

variable {source : List Char} {s s' : Scanner} {ts : List Token} {t : Token}

theorem step_visible (hs : At source s) (h : s.step = .ok (ts, s')) (ht : t ∈ ts)
    (hsolid : t.kind.isSolid = true) : VisibleAt source t.span.start.offset := by
  obtain ⟨layout, mid, lexeme, n, hopens, hpass, -, hgap, hend, hspan⟩ := step_solid h ht hsolid
  have hnext : Lexeme.next? s.rest = some (lexeme, n) := hopens.rest ▸ hpass.next
  have hstart := hs.offset_position s
  obtain ⟨-, read, hsource, hoffset⟩ := hs
  obtain ⟨c, cs, hrest⟩ := List.exists_cons_of_ne_nil (rest_ne_nil_of_step h)
  rw [hrest] at hnext hsource
  have hc : isBlank c = false := Lexeme.isBlank_eq_false_of_next? hnext hgap hend
  exact ⟨read, c, cs, hsource, by rw [hspan, hstart, hoffset], hc⟩

theorem run_visible (hs : At source s) (h : s.run = .ok ts) :
    ∀ t ∈ ts, t.kind.isSolid = true → VisibleAt source t.span.start.offset := by
  induction h using run_induction with
  | finish s hr =>
    intro t ht hsolid
    rw [finish_plain s t ht] at hsolid
    exact Bool.noConfusion hsolid
  | step s first s' more hr hstep hrun ih =>
    intro t ht hsolid
    rcases List.mem_append.1 ht with ht | ht
    · exact step_visible hs hstep ht hsolid
    · exact ih (step_fills hs hstep).1 t ht hsolid

end Scanner

/-- Every solid token of a source starts at a character that is not white space. -/
theorem tokens_visible {source : List Char} {file : String} {ts : List Token}
    (hshort : byteLength source < 2 ^ 32) (h : tokens source file = .ok ts) :
    ∀ t ∈ ts, t.kind.isSolid = true → VisibleAt source t.span.start.offset :=
  Scanner.run_visible (.start hshort file) h

end BuildTyping
