import BuildTyping.Text.Blank
import Mathlib.Data.List.TakeWhile

/-!
# Collapsed white space

A text is words with white space between and around them. Collapsed, it is the words with one space
between any two of them.
-/

namespace BuildTyping

def IsWord (cs : List Char) : Prop := cs ≠ [] ∧ ∀ c ∈ cs, isBlank c = false

def IsBlankRun (cs : List Char) : Prop := ∀ c ∈ cs, isBlank c = true

/-- The second text is the first with each run of white space between two words replaced by one
space, and with none before the first word and behind the last. -/
inductive Collapses : List Char → List Char → Prop where
  | blanks {gap : List Char} (hgap : IsBlankRun gap) : Collapses gap []
  | word {lead word gap : List Char} (hlead : IsBlankRun lead) (hword : IsWord word)
      (hgap : IsBlankRun gap) : Collapses (lead ++ word ++ gap) word
  | words {lead word gap text snippet : List Char} (hlead : IsBlankRun lead)
      (hword : IsWord word) (hgap : IsBlankRun gap) (apart : gap ≠ [])
      (more : Collapses text snippet) (ne : snippet ≠ []) :
      Collapses (lead ++ word ++ gap ++ text) (word ++ ' ' :: snippet)

variable {cs gap lead word : List Char} {ws : List (List Char)} {c : Char}

@[simp] theorem words_nil : words [] = [] := by simp [words]

theorem words_cons_of_blank (hc : isBlank c = true) (cs : List Char) :
    words (c :: cs) = words cs := by
  cases cs <;> simp [words, hc]

theorem words_cons_cons {d : Char} (hc : isBlank c = false) (hd : isBlank d = false)
    (h : words (d :: cs) = word :: ws) : words (c :: d :: cs) = (c :: word) :: ws := by
  rw [words.eq_def]
  simp [hc, hd, h]

theorem words_append_of_blanks (h : IsBlankRun gap) (cs : List Char) :
    words (gap ++ cs) = words cs := by
  induction gap with
  | nil => rfl
  | cons c gap ih =>
    obtain ⟨hc, hgap⟩ := List.forall_mem_cons.1 h
    rw [List.cons_append, words_cons_of_blank hc, ih hgap]

theorem words_of_blanks (h : IsBlankRun gap) : words gap = [] := by
  simpa using words_append_of_blanks h []

/-- A word ends where white space begins. -/
theorem words_append_of_word (h : IsWord word) (hcs : ∀ c ∈ cs.head?, isBlank c = true) :
    words (word ++ cs) = word :: words cs := by
  obtain ⟨hne, hword⟩ := h
  induction word with
  | nil => exact absurd rfl hne
  | cons c word ih =>
    obtain ⟨hc, hword⟩ := List.forall_mem_cons.1 hword
    cases word with
    | nil =>
      cases cs with
      | nil => simp [words, hc]
      | cons d cs =>
        have hd : isBlank d = true := hcs d rfl
        simp [words, hc, hd]
    | cons d word =>
      have hd : isBlank d = false := hword d List.mem_cons_self
      exact words_cons_cons hc hd (ih (by simp) hword)

theorem IsBlankRun.head (h : IsBlankRun gap) (hne : gap ≠ []) (cs : List Char) :
    ∀ c ∈ (gap ++ cs).head?, isBlank c = true := by
  obtain ⟨d, gap, rfl⟩ := List.exists_cons_of_ne_nil hne
  rintro c ⟨⟩
  exact h _ List.mem_cons_self

theorem isBlankRun_takeWhile (cs : List Char) : IsBlankRun (cs.takeWhile isBlank) :=
  fun _ hc => List.mem_takeWhile_imp hc

/-- Behind the white space at its beginning a text is empty or begins with a word, which reaches
to the next white space. -/
theorem blank_or_word (cs : List Char) : IsBlankRun cs ∨
    ∃ lead word rest, cs = lead ++ word ++ rest ∧ IsBlankRun lead ∧ IsWord word ∧
      ∀ c ∈ rest.head?, isBlank c = true := by
  cases hrest : cs.dropWhile isBlank with
  | nil => exact .inl (List.dropWhile_eq_nil_iff.1 hrest)
  | cons c rest =>
    have hc : isBlank c = false := by
      have hhead := List.head?_dropWhile_not isBlank cs
      simpa [hrest] using hhead
    refine .inr ⟨cs.takeWhile isBlank, (c :: rest).takeWhile (!isBlank ·),
      (c :: rest).dropWhile (!isBlank ·), ?_, isBlankRun_takeWhile cs, ⟨?_, ?_⟩, ?_⟩
    · rw [List.append_assoc, List.takeWhile_append_dropWhile, ← hrest,
        List.takeWhile_append_dropWhile]
    · simp [hc]
    · intro d hd
      simpa using List.mem_takeWhile_imp hd
    · intro d hd
      have hhead := List.head?_dropWhile_not (!isBlank ·) (c :: rest)
      rw [Option.mem_def.1 hd] at hhead
      simpa using hhead

theorem collapseBlanks_of_blanks (h : IsBlankRun gap) : collapseBlanks gap = [] := by
  rw [collapseBlanks, words_of_blanks h]
  rfl

theorem collapseBlanks_of_word (hlead : IsBlankRun lead) (hword : IsWord word)
    (hgap : IsBlankRun gap) : collapseBlanks (lead ++ word ++ gap) = word := by
  have hhead : ∀ c ∈ gap.head?, isBlank c = true := fun c hc => hgap c (List.mem_of_mem_head? hc)
  rw [collapseBlanks, List.append_assoc, words_append_of_blanks hlead,
    words_append_of_word hword hhead, words_of_blanks hgap, List.intercalate_singleton]

/-- White space between two words collapses into one space. -/
theorem collapseBlanks_of_words (hlead : IsBlankRun lead) (hword : IsWord word)
    (hgap : IsBlankRun gap) (apart : gap ≠ []) (ne : collapseBlanks cs ≠ []) :
    collapseBlanks (lead ++ word ++ gap ++ cs) = word ++ ' ' :: collapseBlanks cs := by
  have hwords : words (lead ++ word ++ gap ++ cs) = word :: words cs := by
    rw [List.append_assoc, List.append_assoc, words_append_of_blanks hlead,
      words_append_of_word hword (hgap.head apart cs), words_append_of_blanks hgap]
  obtain ⟨v, vs, hvs⟩ := List.exists_cons_of_ne_nil (show words cs ≠ [] by
    intro h
    simp [collapseBlanks, h] at ne)
  rw [collapseBlanks, collapseBlanks, hwords, hvs, List.intercalate_cons_cons]
  simp

variable {text snippet : List Char}

/-- Only white space collapses into nothing. -/
theorem Collapses.ne_nil (h : Collapses text snippet) (hc : c ∈ text) (hblank : isBlank c = false) :
    snippet ≠ [] := by
  cases h with
  | blanks hgap => simp [hgap c hc] at hblank
  | word _ hword _ => exact hword.1
  | words => simp

/-- The induction takes from the text its first word, with a character of white space behind it. -/
theorem collapses_collapseBlanks (text : List Char) : Collapses text (collapseBlanks text) := by
  induction hn : text.length using Nat.strongRecOn generalizing text with
  | ind n ih =>
    rcases blank_or_word text with hblank | ⟨lead, word, rest, rfl, hlead, hword, hrest⟩
    · rw [collapseBlanks_of_blanks hblank]
      exact .blanks hblank
    · by_cases hgap : IsBlankRun rest
      · rw [collapseBlanks_of_word hlead hword hgap]
        exact .word hlead hword hgap
      · obtain ⟨d, rest, rfl⟩ := List.exists_cons_of_ne_nil (show rest ≠ [] by
          rintro rfl
          exact hgap (by simp [IsBlankRun]))
        have hd : IsBlankRun [d] := by simpa [IsBlankRun] using hrest
        obtain ⟨c, hc, hvisible⟩ : ∃ c ∈ rest, isBlank c = false := by
          simpa [IsBlankRun, hd d List.mem_cons_self] using hgap
        have hmore : Collapses rest (collapseBlanks rest) :=
          ih rest.length (by simp [← hn]; omega) rest rfl
        have hne := hmore.ne_nil hc hvisible
        rw [← List.singleton_append, ← List.append_assoc,
          collapseBlanks_of_words hlead hword hd (by simp) hne]
        exact .words hlead hword hd (by simp) hmore hne

/-- A text has one collapsed form. -/
theorem collapses_iff : Collapses text snippet ↔ collapseBlanks text = snippet := by
  constructor
  · intro h
    induction h with
    | blanks hgap => exact collapseBlanks_of_blanks hgap
    | word hlead hword hgap => exact collapseBlanks_of_word hlead hword hgap
    | words hlead hword hgap apart _ ne ih =>
      subst ih
      exact collapseBlanks_of_words hlead hword hgap apart ne
  · rintro rfl
    exact collapses_collapseBlanks text

end BuildTyping
