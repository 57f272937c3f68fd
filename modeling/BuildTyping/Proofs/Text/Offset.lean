import BuildTyping.Proofs.Text.Place
import Mathlib.Data.List.DropRight

/-!
# Places of offsets

The place of any offset, within a character too, is told from the bytes of the text alone: the
newlines before the offset, and the offsets where its line begins and ends.
-/

namespace BuildTyping

/-- The bytes of a text in UTF-8. -/
def utf8 (cs : List Char) : List UInt8 := cs.flatMap String.utf8EncodeChar

namespace Utf8

def newline : UInt8 := 10

/-- The offset just behind the last newline before an offset, or the beginning. -/
def lineStart (bytes : List UInt8) (offset : Nat) : Nat :=
  ((bytes.take offset).rdropWhile (· ≠ newline)).length

/-- The offset just behind the first newline at an offset or after it, or the end. -/
def lineStop (bytes : List UInt8) (offset : Nat) : Nat :=
  min (offset + (bytes.drop offset).idxOf newline + 1) bytes.length

/-- The bytes of the line of an offset, with its newline. -/
def line (bytes : List UInt8) (offset : Nat) : List UInt8 :=
  bytes.extract (lineStart bytes offset) (lineStop bytes offset)

end Utf8

open Utf8

@[simp] theorem utf8_nil : utf8 [] = [] := rfl

@[simp] theorem utf8_append (as bs : List Char) : utf8 (as ++ bs) = utf8 as ++ utf8 bs :=
  List.flatMap_append

@[simp] theorem utf8_newline_cons (cs : List Char) : utf8 ('\n' :: cs) = newline :: utf8 cs := rfl

@[simp] theorem length_utf8 (cs : List Char) : (utf8 cs).length = byteLength cs := by
  induction cs with
  | nil => rfl
  | cons c cs ih =>
    rw [utf8, List.flatMap_cons, List.length_append, String.length_utf8EncodeChar, ← utf8, ih,
      byteLength_cons]

theorem newline_eq_ofNat {n : Nat} : newline = UInt8.ofNat n ↔ n % 256 = 10 := by
  rw [newline, ← UInt8.toNat_inj, UInt8.toNat_ofNat']
  exact eq_comm

/-- The bytes of a character of several bytes are all at least 128. -/
theorem newline_mem_utf8EncodeChar {c : Char} :
    newline ∈ String.utf8EncodeChar c ↔ c = '\n' := by
  have hval : c = '\n' ↔ c.val.toNat = 10 := by
    rw [← Char.toNat_inj]
    rfl
  rw [hval, String.utf8EncodeChar]
  split_ifs <;>
    simp only [List.mem_cons, List.not_mem_nil, or_false, newline_eq_ofNat] <;> omega

theorem newline_mem_utf8 {cs : List Char} : newline ∈ utf8 cs ↔ '\n' ∈ cs := by
  simp only [utf8, List.mem_flatMap, newline_mem_utf8EncodeChar, exists_eq_right]

namespace Utf8

variable {as bs : List UInt8} {offset : Nat}

theorem lineStart_of_notMem (h : newline ∉ bs.take offset) : lineStart bs offset = 0 := by
  have hall : (bs.take offset).rdropWhile (· ≠ newline) = [] :=
    List.rdropWhile_eq_nil_iff.2 fun b hb => by
      simpa using fun he : b = newline => h (he ▸ hb)
  rw [lineStart, hall, List.length_nil]

/-- A line begins no earlier than behind a newline. -/
theorem rdropWhile_append_newline (as bs : List UInt8) :
    (as ++ newline :: bs).rdropWhile (· ≠ newline) =
      as ++ newline :: bs.rdropWhile (· ≠ newline) := by
  induction bs using List.reverseRecOn with
  | nil => simp
  | append_singleton bs b ih =>
    rw [← List.cons_append, ← List.append_assoc, List.rdropWhile_concat, List.rdropWhile_concat, ih]
    split
    · rfl
    · simp

theorem take_behind (as bs : List UInt8) (offset : Nat) :
    (as ++ newline :: bs).take (as.length + 1 + offset) = as ++ newline :: bs.take offset := by
  rw [Nat.add_assoc, List.take_length_add_append, Nat.add_comm 1, List.take_succ_cons]

theorem drop_behind (as bs : List UInt8) (offset : Nat) :
    (as ++ newline :: bs).drop (as.length + 1 + offset) = bs.drop offset := by
  rw [Nat.add_assoc, List.drop_length_add_append, Nat.add_comm 1, List.drop_succ_cons]

theorem lineStart_append (as bs : List UInt8) (offset : Nat) :
    lineStart (as ++ newline :: bs) (as.length + 1 + offset) =
      as.length + 1 + lineStart bs offset := by
  rw [lineStart, take_behind, rdropWhile_append_newline, List.length_append, List.length_cons,
    ← lineStart]
  omega

theorem lineStop_append (as bs : List UInt8) (offset : Nat) :
    lineStop (as ++ newline :: bs) (as.length + 1 + offset) =
      as.length + 1 + lineStop bs offset := by
  rw [lineStop, drop_behind, lineStop, List.length_append, List.length_cons]
  omega

theorem line_append (as bs : List UInt8) (offset : Nat) :
    line (as ++ newline :: bs) (as.length + 1 + offset) = line bs offset := by
  rw [line, lineStart_append, lineStop_append, List.extract_eq_take_drop, drop_behind,
    Nat.add_sub_add_left, ← List.extract_eq_take_drop, ← line]

/-- The only line of a text without a newline. -/
theorem line_of_notMem (h : newline ∉ bs) (hle : offset ≤ bs.length) : line bs offset = bs := by
  have hstop : lineStop bs offset = bs.length := by
    rw [lineStop, List.idxOf_of_notMem fun hmem => h (List.mem_of_mem_drop hmem),
      List.length_drop]
    omega
  rw [line, hstop, lineStart_of_notMem fun hmem => h (List.mem_of_mem_take hmem)]
  simp [List.extract_eq_take_drop]

/-- The first line of a text, up to and including its newline. -/
theorem line_append_of_le (h : newline ∉ as) (hle : offset ≤ as.length) :
    line (as ++ newline :: bs) offset = as ++ [newline] := by
  have hstart : lineStart (as ++ newline :: bs) offset = 0 := by
    refine lineStart_of_notMem fun hmem => h ?_
    rw [List.take_append_of_le_length hle] at hmem
    exact List.mem_of_mem_take hmem
  have hstop : lineStop (as ++ newline :: bs) offset = as.length + 1 := by
    rw [lineStop, List.drop_append_of_le_length hle,
      List.idxOf_append_of_notMem fun hmem => h (List.mem_of_mem_drop hmem), List.idxOf_cons_self,
      List.length_drop, List.length_append, List.length_cons]
    omega
  rw [line, hstart, hstop, List.extract_eq_take_drop, List.drop_zero, Nat.sub_zero,
    List.take_length_add_append]
  rfl

end Utf8

/-- A text without a newline is a line of its own. -/
theorem placeFrom_of_notMem (number : Nat) {cs : List Char} (h : '\n' ∉ cs) (position : Nat) :
    placeFrom number (lines cs) position =
      if byteLength cs < position then none else some ⟨number, cs, position⟩ := by
  by_cases hcs : cs = []
  · subst hcs
    by_cases hposition : position = 0
    · simp [lines, placeFrom, hposition]
    · simp [lines, placeFrom, hposition, Nat.pos_of_ne_zero hposition]
  · have hlines : lines cs = [cs] := by
      have happend := lines_append h hcs []
      rwa [List.append_nil, firstLine, lines, List.headD_nil, List.append_nil] at happend
    have hlast : cs.getLast? ≠ some '\n' := fun hlast => h (List.mem_of_getLast? hlast)
    rw [hlines, placeFrom]
    by_cases hlt : byteLength cs < position
    · rw [if_neg (by omega), if_pos hlt, placeFrom, if_neg (by omega)]
    · rw [if_neg hlt, if_pos]
      rcases Nat.lt_or_eq_of_le (Nat.le_of_not_lt hlt) with hlt | heq
      · exact .inl hlt
      · exact .inr ⟨heq, hlast⟩

/-- The induction goes from line to line. An offset lies on the first line or behind its newline. -/
theorem placeFrom_utf8 (number : Nat) (source : List Char) (position : Nat) :
    (placeFrom number (lines source) position).map
        (fun place => (place.number, utf8 place.line, place.column)) =
      if (utf8 source).length < position then none
      else some (number + ((utf8 source).take position).count newline,
        line (utf8 source) position, position - lineStart (utf8 source) position) := by
  induction source using inductionOnLines generalizing number position with
  | last source hnewline =>
    have hbytes : newline ∉ utf8 source := mt newline_mem_utf8.1 hnewline
    have htake : newline ∉ (utf8 source).take position := fun hmem =>
      hbytes (List.mem_of_mem_take hmem)
    rw [placeFrom_of_notMem number hnewline, length_utf8]
    by_cases hlt : byteLength source < position
    · rw [if_pos hlt, if_pos hlt]
      rfl
    · rw [if_neg hlt, if_neg hlt, lineStart_of_notMem htake, List.count_eq_zero.2 htake,
        line_of_notMem hbytes (by rw [length_utf8]; omega)]
      rfl
  | line as bs has ih =>
    have hbytes : newline ∉ utf8 as := mt newline_mem_utf8.1 has
    rw [utf8_append, utf8_newline_cons]
    by_cases hle : position ≤ byteLength as
    · have htake : newline ∉ (utf8 as ++ newline :: utf8 bs).take position := fun hmem => by
        rw [List.take_append_of_le_length (by rw [length_utf8]; exact hle)] at hmem
        exact hbytes (List.mem_of_mem_take hmem)
      rw [placeFrom_line number has bs hle, lineStart_of_notMem htake, List.count_eq_zero.2 htake,
        line_append_of_le hbytes (by rw [length_utf8]; exact hle), if_neg]
      · simp
      · simp only [List.length_append, List.length_cons, length_utf8]
        omega
    · obtain ⟨rest, rfl⟩ := Nat.exists_eq_add_of_le (show byteLength as + 1 ≤ position by omega)
      rw [placeFrom_behind number has, ih, ← length_utf8 as, lineStart_append, line_append,
        Nat.add_sub_add_left]
      have hcount : ((utf8 as ++ newline :: utf8 bs).take ((utf8 as).length + 1 + rest)).count
          newline = 1 + ((utf8 bs).take rest).count newline := by
        rw [take_behind, List.count_append, List.count_eq_zero.2 hbytes, List.count_cons_self]
        omega
      have hlength : (utf8 as ++ newline :: utf8 bs).length < (utf8 as).length + 1 + rest ↔
          (utf8 bs).length < rest := by
        rw [List.length_append, List.length_cons]
        omega
      simp only [hcount, hlength, ← Nat.add_assoc]

/-- No offset behind the end of a text has a place, and every other one has: the number of its
line counts the newlines before it, its line reaches from behind the last of them up to and
including the next newline or to the end, and its column counts the bytes of the line before it. -/
theorem place_at_offset (source : List Char) (position : Nat) :
    (place? source position).map (fun place => (place.number, utf8 place.line, place.column)) =
      if (utf8 source).length < position then none
      else some (1 + ((utf8 source).take position).count newline,
        line (utf8 source) position, position - lineStart (utf8 source) position) :=
  placeFrom_utf8 1 source position

/-- The second byte of a character, and the end behind a last newline. -/
example : place? "é\n".toList 1 = some ⟨1, "é\n".toList, 1⟩ ∧
    place? "é\n".toList 3 = some ⟨2, [], 0⟩ := by decide

end BuildTyping
