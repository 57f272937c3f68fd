import BuildTyping.Proofs.Token.Cut
import BuildTyping.Proofs.Token.Indentation
import BuildTyping.Proofs.Token.Reach
import Mathlib.Logic.Relation

/-!
# Where a source is refused

A scanner stops at the first character of a text that begins with no lexeme it can take, or at the
first character of a line whose indentation fits no open block. All before that has been read. And
where a scanner comes to such a text it stops.
-/

namespace BuildTyping

/-- The text begins with no lexeme, with a literal that is not closed or with a bracket that does
not close the innermost open one. -/
inductive Unread (rest : List Char) (brackets : List Bracket) : Cause → Prop where
  | unrecognised {c : Char} {cs : List Char} (text : rest = c :: cs)
      (next : Lexeme.next? rest = none) :
      Unread rest brackets (.unrecognisedToken (String.ofList [c]))
  | unterminated {n : Nat} (next : Lexeme.next? rest = some (.unterminated, n)) :
      Unread rest brackets .unterminatedString
  | unbalanced {bracket : Bracket} {n : Nat}
      (next : Lexeme.next? rest = some (.closing bracket, n))
      (unopened : brackets.head? ≠ some bracket) :
      Unread rest brackets (.unbalancedBracket (String.ofList (rest.take n)))

namespace Scanner

variable {source : List Char} {s m : Scanner} {cause : Cause} {fault : Fault}

def Steps (s s' : Scanner) : Prop := ∃ ts, s.step = .ok (ts, s')

/-- The fault that stops the scanner. A text that cannot be read is faulted at its first character,
and a line that is not blank and fits no open block behind its indentation. -/
inductive Refuses (s : Scanner) : Fault → Prop where
  | lexeme {cause : Cause} (unread : Unread s.rest s.brackets cause) :
      s.Refuses ⟨cause, s.position s.offset⟩
  | line (start : s.atLineStart = true) (outside : s.brackets = [])
      (blank : isBlankLine (s.rest.drop (indentation s.rest).length) = false)
      (misfit : ¬∃ blocks', Restacks (columnAfter (indentation s.rest)) s.blocks blocks') :
      s.Refuses ⟨.inconsistentIndentation,
        s.position (s.offset + byteLength (indentation s.rest))⟩

theorem readLexeme_error (hne : s.rest ≠ []) (h : s.readLexeme = .error fault) :
    ∃ cause, fault = ⟨cause, s.position s.offset⟩ ∧ Unread s.rest s.brackets cause := by
  simp only [readLexeme] at h
  split at h
  · rename_i hn
    obtain ⟨c, cs, hrest⟩ := List.exists_cons_of_ne_nil hne
    cases h
    rw [hrest, List.take_succ_cons, List.take_zero]
    exact ⟨_, rfl, .unrecognised rfl (hrest ▸ hn)⟩
  · rename_i lexeme n hn
    cases lexeme with
    | unterminated =>
      cases h
      exact ⟨_, rfl, .unterminated hn⟩
    | closing b =>
      simp only at h
      split at h
      · simp at h
      · rename_i hb
        cases h
        exact ⟨_, rfl, .unbalanced hn hb⟩
    | gap | lineEnd | string | number | word | opening | sign => simp at h

/-- Opening a line reads nothing, so what cannot be read behind it cannot be read before it. -/
theorem step_error (hne : s.rest ≠ []) (h : s.step = .error fault) : s.Refuses fault := by
  cases hc : s.atLineStart && s.brackets.isEmpty with
  | false =>
    simp only [step, hc, Bool.false_eq_true, if_false] at h
    obtain ⟨cause, rfl, hunread⟩ := readLexeme_error hne h
    exact .lexeme hunread
  | true =>
    obtain ⟨hstart, hb⟩ := Bool.and_eq_true_iff.1 hc
    simp only [step, hc, if_true] at h
    cases ho : s.openLine with
    | error other =>
      obtain rfl : other = fault := by simpa [ho, bind, Except.bind] using h
      obtain ⟨hblank, rfl, hmisfit⟩ := openLine_error ho
      exact .line hstart (List.isEmpty_iff.1 hb) hblank hmisfit
    | ok opened =>
      obtain ⟨layout, mid⟩ := opened
      cases hr : mid.readLexeme with
      | ok after => simp [ho, hr, bind, Except.bind, pure, Except.pure] at h
      | error other =>
        obtain rfl : other = fault := by simpa [ho, hr, bind, Except.bind] using h
        have hrest := rest_openLine ho
        have hposition : mid.position mid.offset = s.position s.offset := by
          rcases openLine_cases ho with ⟨-, -, rfl⟩ | ⟨-, ⟨blocks, rfl⟩, -⟩ <;> rfl
        obtain ⟨cause, rfl, hunread⟩ := readLexeme_error (hrest ▸ hne) hr
        rw [hrest, brackets_openLine ho] at hunread
        rw [hposition]
        exact .lexeme hunread

/-- A run that fails steps up to where it is refused. -/
theorem run_error (h : s.run = .error fault) :
    ∃ m, Relation.ReflTransGen Steps s m ∧ m.Refuses fault := by
  induction s using run.induct with
  | case1 s hr =>
    rw [run_nil hr] at h
    cases h
  | case2 s hr other hstep =>
    rw [run_step hr, hstep] at h
    cases h
    exact ⟨s, .refl, step_error hr hstep⟩
  | case3 s hr first s' hstep ih =>
    rw [run_step hr, hstep] at h
    cases hrun : s'.run with
    | ok more => simp [hrun, Except.map] at h
    | error other =>
      obtain rfl : other = fault := by simpa [hrun, Except.map] using h
      obtain ⟨m, hsteps, hm⟩ := ih hrun
      exact ⟨m, .head ⟨first, hstep⟩ hsteps, hm⟩

theorem Reaches.of_steps (h : Relation.ReflTransGen Steps s m) : ∃ ts, Reaches s ts m := by
  induction h using Relation.ReflTransGen.head_induction_on with
  | refl => exact ⟨[], .refl m⟩
  | head hstep _ ih =>
    obtain ⟨ts, hstep⟩ := hstep
    obtain ⟨us, hus⟩ := ih
    exact ⟨ts ++ us, .step hstep hus⟩

theorem At.steps (hs : At source s) (h : Relation.ReflTransGen Steps s m) : At source m := by
  obtain ⟨ts, hreach⟩ := Reaches.of_steps h
  exact hreach.stands hs

theorem file_of_steps (h : Relation.ReflTransGen Steps s m) : m.file = s.file := by
  induction h with
  | refl => rfl
  | tail _ hstep ih =>
    obtain ⟨ts, hstep⟩ := hstep
    rw [(file_step hstep).1, ih]

theorem Refuses.file (h : s.Refuses fault) : fault.file = s.file := by
  cases h <;> rfl

/-- There is a character where a scanner is refused. -/
theorem Refuses.exists_char (h : s.Refuses fault) (hs : At source s) :
    ∃ before c after, source = before ++ c :: after ∧ byteLength before = fault.offset := by
  have hposition := hs.offset_position s
  have hbehind := hs.offset_indentation
  obtain ⟨-, read, hsource, hread⟩ := hs
  have split_at {as bs : List Char} (hne : bs ≠ []) (hsplit : source = as ++ bs) :
      ∃ before c after, source = before ++ c :: after ∧ byteLength before = byteLength as := by
    obtain ⟨c, after, rfl⟩ := List.exists_cons_of_ne_nil hne
    exact ⟨as, c, after, hsplit, rfl⟩
  cases h with
  | lexeme unread =>
    have hne : s.rest ≠ [] := by
      intro hnil
      cases unread with
      | unrecognised text => simp [hnil] at text
      | unterminated next | unbalanced next => simp [hnil, Lexeme.next?] at next
    rw [Fault.offset, hposition, hread]
    exact split_at hne hsource
  | line start outside blank misfit =>
    have hne : s.rest.drop (indentation s.rest).length ≠ [] := by
      intro hnil
      simp [hnil, isBlankLine] at blank
    have hsplit : source = (read ++ indentation s.rest) ++
        s.rest.drop (indentation s.rest).length := by
      rw [List.append_assoc, indentation_append_drop, hsource]
    rw [← byteLength_indentation] at hbehind
    rw [Fault.offset, hbehind, hread, ← byteLength_append]
    exact split_at hne hsplit

theorem Refuses.boundary (h : s.Refuses fault) (hs : At source s) :
    isBoundary fault.offset source = true ∧ fault.offset < byteLength source := by
  obtain ⟨before, c, after, rfl, hbefore⟩ := h.exists_char hs
  have hpos := c.utf8Size_pos
  rw [← hbefore, byteLength_append, byteLength_cons]
  exact ⟨isBoundary_append before (c :: after), by omega⟩

theorem Refuses.offset_le (h : s.Refuses fault) (hs : At source s) : s.offset ≤ fault.offset := by
  cases h with
  | lexeme unread => exact Nat.le_of_eq (hs.offset_position s).symm
  | line =>
    have hbehind := hs.offset_indentation
    rw [← byteLength_indentation] at hbehind
    rw [Fault.offset, hbehind]
    exact Nat.le_add_right _ _

/-- A run does not fail before the place where it begins. -/
theorem offset_le_of_run (hs : At source s) (h : s.run = .error fault) :
    s.offset ≤ fault.offset := by
  obtain ⟨m, hsteps, hm⟩ := run_error h
  obtain ⟨ts, hreach⟩ := Reaches.of_steps hsteps
  exact Nat.le_trans (hreach.offset_le hs) (hm.offset_le (hs.steps hsteps))

/-- A line without indentation may end blocks. -/
theorem openLine_flush {c : Char} {cs : List Char} (hs : s.rest = c :: cs) (hc : c ∉ breaks) :
    ∃ layout blocks, s.openLine = .ok (layout, { s with
      blocks := blocks, atLineStart := false, lineOpen := s.lineOpen || !layout.isEmpty }) ∧
      ∀ t ∈ layout, t.kind = .dedent := by
  simp only [breaks, List.mem_cons, List.not_mem_nil, or_false, not_or] at hc
  obtain ⟨h1, h2, -, h4, h5, -, h7⟩ := hc
  have hindent : indentation s.rest = [] := by simp [hs, indentation, h1, h2]
  have hblank : isBlankLine s.rest = false := by simp [hs, isBlankLine, h4, h5, h7]
  have houter : (s.blocks.dropWhile (0 < ·)).head?.getD 0 = 0 := by
    induction s.blocks with
    | nil => rfl
    | cons width blocks ih => cases width <;> simp_all
  let ended := s.blocks.length - (s.blocks.dropWhile (0 < ·)).length
  refine ⟨List.replicate ended (s.layout .dedent s.offset 0),
    s.blocks.dropWhile (0 < ·), ?_, fun t ht => ?_⟩
  · simp [openLine, hindent, hblank, columnAfter, houter, ended]
  · rw [List.eq_of_mem_replicate ht]
    rfl

theorem readLexeme_of_unread (h : Unread s.rest s.brackets cause) :
    s.readLexeme = .error ⟨cause, s.position s.offset⟩ := by
  cases h with
  | unrecognised text next =>
    simp only [readLexeme, next]
    rw [text]
    rfl
  | unterminated next => simp [readLexeme, next]
  | unbalanced next unopened => simp [readLexeme, next, unopened]

/-- A scanner stops where it has come to a lexeme that cannot be taken. -/
theorem run_of_unread {c : Char} {cs : List Char} (hs : s.rest = c :: cs) (hc : c ∉ breaks)
    (h : Unread s.rest s.brackets cause) : s.run = .error ⟨cause, s.position s.offset⟩ := by
  have hstep : s.step = .error ⟨cause, s.position s.offset⟩ := by
    cases hline : s.atLineStart && s.brackets.isEmpty with
    | false =>
      rw [step, hline]
      exact readLexeme_of_unread h
    | true =>
      obtain ⟨layout, blocks, ho, -⟩ := openLine_flush hs hc
      have hread : readLexeme { s with
          blocks := blocks, atLineStart := false, lineOpen := s.lineOpen || !layout.isEmpty } =
            .error ⟨cause, s.position s.offset⟩ := readLexeme_of_unread h
      simp [step, hline, ho, hread, bind, Except.bind]
  rw [run_step (by simp [hs]), hstep]

end Scanner

/-- Where the tokens of a source end in a fault, it has been read up to there. -/
theorem tokens_error {source : List Char} {file : String} {fault : Fault}
    (hshort : byteLength source < 2 ^ 32) (h : tokens source file = .error fault) :
    ∃ s, Relation.ReflTransGen Scanner.Steps (.start source file) s ∧ s.At source ∧
      s.Refuses fault := by
  obtain ⟨s, hsteps, hs⟩ := Scanner.run_error h
  exact ⟨s, hsteps, (Scanner.At.start hshort file).steps hsteps, hs⟩

end BuildTyping
