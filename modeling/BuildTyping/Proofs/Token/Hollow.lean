import BuildTyping.Proofs.Token.Insertion

/-!
# Lines without a lexeme

A line with nothing but skipped text, and the scanner that passes it. A text either is such a line
or has a lexeme that becomes a token behind blanks and line ends that are joined.
-/

namespace BuildTyping

/-- The end of a line, or of the source. -/
def Closes (rest eol : List Char) : Prop := IsLineEnd eol ∨ eol = [] ∧ rest = []

/-- A line of skipped text before the rest of the source: blanks and line ends behind a backslash,
then a comment or none. -/
inductive VoidLine (rest : List Char) : List Char → Prop where
  | closed {eol : List Char} (closes : Closes rest eol) : VoidLine rest eol
  | comment {text eol : List Char} (htext : '\n' ∉ text) (closes : Closes rest eol) :
      VoidLine rest ('#' :: text ++ eol)
  | space {c : Char} {more : List Char} (hc : c = ' ' ∨ c = '\t' ∨ c = '\x0c')
      (line : VoidLine rest more) : VoidLine rest (c :: more)
  | joined {eol more : List Char} (heol : IsLineEnd eol) (line : VoidLine rest more) :
      VoidLine rest ('\\' :: eol ++ more)

/-- The text begins with a line of skipped text. -/
def Mute (text : List Char) : Prop := ∃ line rest, text = line ++ rest ∧ VoidLine rest line

/-- The text has a lexeme behind blanks and line ends behind a backslash. -/
def Speaks (text : List Char) : Prop :=
  ∃ gap tail, text = gap ++ tail ∧ Joints gap ∧ tail ≠ [] ∧
    ∀ n, Lexeme.next? tail ≠ some (.gap, n) ∧ Lexeme.next? tail ≠ some (.lineEnd, n)

theorem Joints.append {gap more : List Char} (h : Joints gap) (h' : Joints more) :
    Joints (gap ++ more) := by
  induction h with
  | nil => exact h'
  | space hc _ ih => exact .space hc ih
  | joined heol _ ih =>
    rw [List.append_assoc]
    exact .joined heol ih

variable {text rest line gap : List Char}

theorem VoidLine.stops (h : VoidLine rest line) : Stops (line ++ rest) := by
  cases h with
  | closed closes =>
    rcases closes with (rfl | rfl) | ⟨rfl, rfl⟩
    · exact .cons (by decide) _
    · exact .cons (by decide) _
    · simp [Stops]
  | comment => exact .cons (by decide) _
  | space hc => exact .cons (by rcases hc with rfl | rfl | rfl <;> decide) _
  | joined => exact .cons (by decide) _

theorem Mute.stops (h : Mute text) : Stops text := by
  obtain ⟨line, rest, rfl, hline⟩ := h
  exact hline.stops

theorem Mute.joints (hgap : Joints gap) (h : Mute text) : Mute (gap ++ text) := by
  obtain ⟨line, rest, rfl, hline⟩ := h
  refine ⟨gap ++ line, rest, (List.append_assoc ..).symm, ?_⟩
  induction hgap with
  | nil => exact hline
  | space hc _ ih => exact .space hc ih
  | joined heol _ ih =>
    rw [List.append_assoc]
    exact .joined heol ih

/-- Blanks before such a line may be taken off. -/
theorem Mute.of_append (hgap : ∀ c ∈ gap, c = ' ' ∨ c = '\t' ∨ c = '\x0c')
    (h : Mute (gap ++ text)) : Mute text := by
  induction gap with
  | nil => exact h
  | cons c gap ih =>
    apply ih fun d hd => hgap d (by simp [hd])
    have hc := hgap c (by simp)
    obtain ⟨line, rest, htext, hline⟩ := h
    cases hline with
    | closed closes =>
      rcases closes with (rfl | rfl) | ⟨rfl, rfl⟩
      · obtain rfl : c = '\n' := (List.cons.inj htext).1
        exact absurd hc (by decide)
      · obtain rfl : c = '\r' := (List.cons.inj htext).1
        exact absurd hc (by decide)
      · simp at htext
    | comment =>
      obtain rfl : c = '#' := (List.cons.inj htext).1
      exact absurd hc (by decide)
    | @space d more _ hmore => exact ⟨more, rest, (List.cons.inj htext).2, hmore⟩
    | joined =>
      obtain rfl : c = '\\' := (List.cons.inj htext).1
      exact absurd hc (by decide)

theorem Speaks.joints (hgap : Joints gap) (h : Speaks text) : Speaks (gap ++ text) := by
  obtain ⟨more, tail, rfl, hmore, hne, hnext⟩ := h
  exact ⟨gap ++ more, tail, (List.append_assoc ..).symm, hgap.append hmore, hne, hnext⟩

theorem mute_of_lineEnd {eol : List Char} (heol : IsLineEnd eol) (rest : List Char) :
    Mute (eol ++ rest) := ⟨eol, rest, rfl, .closed (.inl heol)⟩

theorem mute_of_comment {comment : List Char} (htext : '\n' ∉ comment)
    (ends : ∀ c ∈ rest.head?, c = '\n') : Mute ('#' :: comment ++ rest) := by
  cases rest with
  | nil => exact ⟨'#' :: comment ++ [], [], by simp, .comment htext (.inr ⟨rfl, rfl⟩)⟩
  | cons c rest =>
    obtain rfl : c = '\n' := ends c rfl
    exact ⟨'#' :: comment ++ ['\n'], rest, by simp, .comment htext (.inl (.inl rfl))⟩

/-- Every text begins with a line of skipped text or has a lexeme of its own. -/
theorem mute_or_speaks (text : List Char) : Mute text ∨ Speaks text := by
  induction hlength : text.length using Nat.strong_induction_on generalizing text with
  | _ k ih =>
    have behind {gap rest : List Char} (hgap : Joints gap) (hne : gap ≠ [])
        (htext : text = gap ++ rest) : Mute text ∨ Speaks text := by
      have hpos := List.length_pos_iff.2 hne
      rw [htext, List.length_append] at hlength
      rw [htext]
      exact (ih rest.length (by omega) rest rfl).imp (.joints hgap) (.joints hgap)
    by_cases hgap : ∃ n, Lexeme.next? text = some (.gap, n)
    · obtain ⟨n, hn⟩ := hgap
      have htrivia := Lexeme.trivia_of_gap hn
      have htext := (List.take_append_drop n text).symm
      have hne : text.take n ≠ [] := by
        obtain ⟨hpos, hle⟩ := Lexeme.next?_bounds hn
        rw [← List.length_pos_iff, List.length_take_of_le hle]
        exact hpos
      generalize text.take n = gap at htrivia htext hne
      generalize text.drop n = rest at htrivia htext
      cases htrivia with
      | nil => exact absurd rfl hne
      | @space c more hc =>
        exact behind (.space hc .nil) (by simp) htext
      | @comment comment more hcomment ends =>
        rw [htext, List.append_assoc]
        exact .inl (mute_of_comment hcomment ends)
      | @joined eol more heol =>
        rw [List.append_assoc] at htext
        exact behind (by simpa using Joints.joined heol .nil) (by simp) htext
      | @lineEnd eol more heol =>
        rw [htext, List.append_assoc]
        exact .inl (mute_of_lineEnd heol _)
    · by_cases hend : ∃ n, Lexeme.next? text = some (.lineEnd, n)
      · obtain ⟨n, hn⟩ := hend
        rw [← List.take_append_drop n text]
        exact .inl (mute_of_lineEnd (Lexeme.isLineEnd_of_lineEnd hn) _)
      · by_cases hnil : text = []
        · exact .inl ⟨[], [], hnil, .closed (.inr ⟨rfl, rfl⟩)⟩
        · exact .inr ⟨[], text, rfl, .nil, hnil,
            fun n => ⟨fun hn => hgap ⟨n, hn⟩, fun hn => hend ⟨n, hn⟩⟩⟩

namespace Scanner

variable {s s' : Scanner} {ts : List Token} {n : Nat}

/-- The scanner at the start of the line behind this one. -/
def nextLine (s : Scanner) (line rest : List Char) : Scanner :=
  { s with
    offset := s.offset + byteLength line
    rest := rest
    atLineStart := true
    lineOpen := false }

/-- From within a line the scanner comes to the start of the next line with this text skipped, and
the line is ended if it is open. -/
def Leaves (s : Scanner) (line rest : List Char) : Prop :=
  ∃ t : Token, t.kind = .newline ∧ (s.facing (line ++ rest)).run =
    (s.nextLine line rest).run.map ((if s.lineOpen then [t] else []) ++ ·)

theorem leaves_of_closes {eol rest : List Char} (h : Closes rest eol) (hs : s.atLineStart = false)
    (hb : s.brackets = []) : s.Leaves eol rest := by
  refine ⟨s.layout .newline s.offset (byteLength eol), rfl, ?_⟩
  rcases h with heol | ⟨rfl, rfl⟩
  · have hstep : (s.facing (eol ++ rest)).step =
        .ok (if s.lineOpen then [s.layout .newline s.offset (byteLength eol)] else [],
          s.nextLine eol rest) := by
      have hread : (s.facing (eol ++ rest)).Reading := reading_of_within hs
      rw [hread, readLexeme, rest_facing, Lexeme.next?_of_isLineEnd heol]
      simp [endLine, skip, facing, nextLine, layout, spanFrom, position, hb]
    rw [run_step (rest_ne_nil_of_step hstep), hstep]
  · rw [run_nil rfl, run_nil rfl]
    cases hl : s.lineOpen with
    | false => simp [finish, facing, nextLine, layout, spanFrom, position, hl, Except.map]
    | true => simp [finish, facing, nextLine, layout, spanFrom, position, hl, Except.map]

/-- Text that is not seen may come first. -/
theorem Unseen.leaves {gap line rest : List Char} (hgap : s.Unseen gap (line ++ rest))
    (h : (s.shift (byteLength gap)).Leaves line rest) : s.Leaves (gap ++ line) rest := by
  obtain ⟨t, ht, hrun⟩ := h
  have hnext : s.nextLine (gap ++ line) rest = (s.shift (byteLength gap)).nextLine line rest := by
    simp [nextLine, shift, Nat.add_assoc]
  refine ⟨t, ht, ?_⟩
  rw [List.append_assoc, hgap, hnext]
  exact hrun

/-- A line of skipped text has no token but its end, and that only if the line is open. -/
theorem leaves_of_voidLine {line rest : List Char} (h : VoidLine rest line)
    (hs : s.atLineStart = false) (hb : s.brackets = []) : s.Leaves line rest := by
  induction h generalizing s with
  | closed closes => exact leaves_of_closes closes hs hb
  | @comment text eol htext closes =>
    -- a carriage return before the line feed belongs to the comment
    have key {text eol : List Char} (htext : '\n' ∉ text) (closes : Closes rest eol)
        (ends : ∀ c ∈ (eol ++ rest).head?, c = '\n') : s.Leaves ('#' :: text ++ eol) rest :=
      (unseen_gap (reading_of_within hs) (Lexeme.next?_of_comment htext ends)).leaves
        (leaves_of_closes closes hs hb)
    rcases closes with (rfl | rfl) | ⟨rfl, rfl⟩
    · exact key htext (.inl (.inl rfl)) (by simp)
    · have hcomment : '\n' ∉ text ++ ['\r'] := by simpa using htext
      simpa using key hcomment (.inl (.inl rfl)) (by simp)
    · exact key htext (.inr ⟨rfl, rfl⟩) (by simp)
  | @space c more hc _ ih => exact (unseen_space_within hc hs (more ++ rest)).leaves (ih hs hb)
  | @joined eol more heol _ ih =>
    exact (unseen_joined_within heol hs (more ++ rest)).leaves (ih hs hb)

/-- The tokens from a line of skipped text on. -/
theorem tokens_of_voidLine {line rest : List Char} (h : VoidLine rest line)
    (hrest : s.rest = line ++ rest) (hs : s.atLineStart = false) (hb : s.brackets = [])
    (hrun : s.run = .ok ts) : ∃ t vs, t.kind = TokenKind.newline ∧
      (s.nextLine line rest).run = .ok vs ∧ ts = (if s.lineOpen then [t] else []) ++ vs := by
  obtain ⟨t, ht, hleaves⟩ := leaves_of_voidLine h hs hb
  rw [← hrest, facing_rest, hrun] at hleaves
  cases hnext : (s.nextLine line rest).run with
  | error fault => simp [hnext, Except.map] at hleaves
  | ok vs =>
    simp only [hnext, Except.map, Except.ok.injEq] at hleaves
    exact ⟨t, vs, ht, rfl, hleaves⟩

/-- A lexeme that is no trivia has a token. -/
theorem token_of_readLexeme {lexeme : Lexeme} (h : s.readLexeme = .ok (ts, s'))
    (hn : Lexeme.next? s.rest = some (lexeme, n)) (hgap : lexeme ≠ .gap)
    (hend : lexeme ≠ .lineEnd) : ∃ t, ts = [t] ∧ t.kind.isSolid = true := by
  have hone : ∃ t, ts = [t] := by
    simp only [readLexeme, hn] at h
    cases lexeme with
    | gap => exact absurd rfl hgap
    | lineEnd => exact absurd rfl hend
    | unterminated => simp at h
    | string | number | word | opening | sign =>
      cases h
      exact ⟨_, rfl⟩
    | closing bracket =>
      simp only at h
      split at h
      · cases h
        exact ⟨_, rfl⟩
      · simp at h
  obtain ⟨t, rfl⟩ := hone
  have hsolid := layout_of_readLexeme h hn (List.mem_singleton_self t)
  rw [if_neg hend] at hsolid
  exact ⟨t, rfl, hsolid⟩

/-- Before a text with a lexeme the first token is solid, and only blanks and line ends behind a
backslash come before it. -/
theorem first_of_speaks {source : List Char} (hs : At source s) (hline : s.atLineStart = false)
    (hspeaks : Speaks s.rest) (h : s.run = .ok ts) :
    ∃ t us gap, ts = t :: us ∧ t.kind.isSolid = true ∧
      slice? s.offset t.span.start.offset source = some gap ∧ Joints gap := by
  obtain ⟨gap, tail, hrest, hgap, hne, hnext⟩ := hspeaks
  have hskip : s.run = ((s.facing tail).shift (byteLength gap)).run := by
    have hunseen := unseen_joints hgap hline tail
    rwa [Unseen, ← hrest, facing_rest] at hunseen
  rw [hskip] at h
  obtain ⟨first, s', more, hstep, -, rfl⟩ := (run_ok hne).1 h
  have hread : ((s.facing tail).shift (byteLength gap)).Reading := reading_of_within hline
  rw [hread] at hstep
  obtain ⟨lexeme, n, hpass⟩ := readLexeme_passes hstep
  have hlexeme : lexeme ≠ .gap ∧ lexeme ≠ .lineEnd := by
    constructor
    · rintro rfl
      exact (hnext n).1 hpass.next
    · rintro rfl
      exact (hnext n).2 hpass.next
  obtain ⟨t, rfl, hsolid⟩ := token_of_readLexeme hstep hpass.next hlexeme.1 hlexeme.2
  refine ⟨t, more, gap, rfl, hsolid, ?_, hgap⟩
  have hskips : s.Skips gap.length ((s.facing tail).shift (byteLength gap)) :=
    ⟨by rw [hrest, List.drop_left]; rfl, by rw [hrest, List.take_left]; rfl⟩
  have hstart : t.span.start.offset = s.offset + byteLength gap := by
    rcases hpass.emits with ⟨hnil, -⟩ | ⟨-, u, hu, hspan, -⟩
    · simp at hnil
    · obtain rfl := List.singleton_inj.1 hu
      rw [hspan]
      exact (hskips.at hs).offset_position _
  obtain ⟨-, read, hsource, hoffset⟩ := hs
  rw [hrest] at hsource
  exact slice?_eq_some_iff.2 ⟨read, tail, by rw [hsource, List.append_assoc], hoffset.symm,
    hstart.symm⟩

end Scanner

end BuildTyping
