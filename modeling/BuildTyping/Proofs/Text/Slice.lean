import BuildTyping.Text.Bytes

/-!
# Slices of a text

A slice lies between a beginning and an end of the text that are measured in bytes, and adjacent
slices join.
-/

namespace BuildTyping

/-- A member of two lists in a row belongs to one of them. -/
theorem append_eq_append_cons {α : Type} {as bs before after : List α} {c : α}
    (h : as ++ bs = before ++ c :: after) :
    (∃ ds, before = as ++ ds ∧ bs = ds ++ c :: after) ∨
      ∃ ds, as = before ++ c :: ds ∧ after = ds ++ bs := by
  rcases List.append_eq_append_iff.1 h with ⟨ds, hbefore, hbs⟩ | ⟨ds, has, hafter⟩
  · exact .inl ⟨ds, hbefore, hbs⟩
  · cases ds with
    | nil => exact .inl ⟨[], by simpa using has.symm, by simpa using hafter.symm⟩
    | cons d ds =>
      obtain ⟨hd, htail⟩ := List.cons.inj hafter
      subst hd
      exact .inr ⟨ds, has, htail⟩

theorem isBoundary_iff {n : Nat} {cs : List Char} :
    isBoundary n cs = true ↔ ∃ before after, cs = before ++ after ∧ byteLength before = n := by
  constructor
  · intro h
    induction cs generalizing n with
    | nil =>
      have hn : n = 0 := by simpa [isBoundary] using h
      exact ⟨[], [], rfl, by simp [hn]⟩
    | cons c cs ih =>
      by_cases hn : n = 0
      · exact ⟨[], c :: cs, rfl, by simp [hn]⟩
      · simp only [isBoundary, hn, beq_iff_eq, Bool.or_eq_true, Bool.and_eq_true,
          decide_eq_true_eq, false_or] at h
        obtain ⟨before, after, rfl, hb⟩ := ih h.2
        refine ⟨c :: before, after, rfl, ?_⟩
        rw [byteLength_cons, hb]
        omega
  · rintro ⟨before, after, rfl, rfl⟩
    exact isBoundary_append before after

theorem isBoundary_byteLength (cs : List Char) : isBoundary (byteLength cs) cs = true := by
  simpa using isBoundary_append cs []

/-- Beginnings of a text are ordered by their length in bytes. -/
theorem exists_append_of_byteLength_le {as bs cs ds : List Char} (h : as ++ bs = cs ++ ds)
    (hle : byteLength as ≤ byteLength cs) : ∃ es, cs = as ++ es := by
  rcases List.append_eq_append_iff.1 h with ⟨es, rfl, -⟩ | ⟨es, rfl, -⟩
  · exact ⟨es, rfl⟩
  · have hz : es = [] := by
      cases es with
      | nil => rfl
      | cons e es =>
        have := e.utf8Size_pos
        simp only [byteLength_append, byteLength_cons] at hle
        omega
    exact ⟨[], by simp [hz]⟩

theorem length_le_byteLength (cs : List Char) : cs.length ≤ byteLength cs := by
  induction cs with
  | nil => simp
  | cons c cs ih =>
    have := c.utf8Size_pos
    simp only [List.length_cons, byteLength_cons]
    omega

/-- Only characters of one byte each make a text as long in bytes as in characters. -/
theorem byteLength_eq_length_iff {cs : List Char} :
    byteLength cs = cs.length ↔ ∀ c ∈ cs, c.utf8Size = 1 := by
  induction cs with
  | nil => simp
  | cons c cs ih =>
    have hc := c.utf8Size_pos
    have hcs := length_le_byteLength cs
    rw [byteLength_cons, List.length_cons, List.forall_mem_cons, ← ih]
    omega

theorem slice?_eq_some_iff {start stop : Nat} {cs text : List Char} :
    slice? start stop cs = some text ↔
      ∃ before after, cs = before ++ text ++ after ∧ byteLength before = start ∧
        start + byteLength text = stop := by
  constructor
  · intro h
    simp only [slice?] at h
    split at h
    · rename_i hb
      simp only [Bool.and_eq_true, decide_eq_true_eq] at hb
      obtain ⟨⟨hle, hstart⟩, hstop⟩ := hb
      obtain ⟨before, rest, hcs, rfl⟩ := isBoundary_iff.1 hstart
      obtain ⟨upto, after, hcs', rfl⟩ := isBoundary_iff.1 hstop
      obtain ⟨middle, rfl⟩ := exists_append_of_byteLength_le (hcs.symm.trans hcs') hle
      have htext : text = middle := by
        have hlen : byteLength (before ++ middle) - byteLength before = byteLength middle := by
          rw [byteLength_append]
          omega
        rw [hcs', hlen, List.append_assoc, dropBytes_append, takeBytes_append] at h
        exact (Option.some.inj h).symm
      exact ⟨before, after, by rw [hcs', htext], rfl, by rw [htext, byteLength_append]⟩
    · simp at h
  · rintro ⟨before, after, rfl, rfl, rfl⟩
    have h1 : isBoundary (byteLength before) (before ++ text ++ after) = true := by
      rw [List.append_assoc]
      exact isBoundary_append ..
    have h2 : isBoundary (byteLength before + byteLength text)
        (before ++ text ++ after) = true := by
      rw [← byteLength_append]
      exact isBoundary_append ..
    have h3 : byteLength before + byteLength text - byteLength before = byteLength text := by omega
    simp only [slice?, h1, h2, h3, Nat.le_add_right, decide_true, Bool.and_self, if_true]
    rw [List.append_assoc, dropBytes_append, takeBytes_append]

theorem slice?_isSome {start stop : Nat} {cs : List Char} (hle : start ≤ stop)
    (hstart : isBoundary start cs = true) (hstop : isBoundary stop cs = true) :
    ∃ text, slice? start stop cs = some text := by
  simp [slice?, hle, hstart, hstop]

theorem isBoundary_of_slice? {start stop : Nat} {cs text : List Char}
    (h : slice? start stop cs = some text) :
    isBoundary start cs = true ∧ isBoundary stop cs = true := by
  simp only [slice?] at h
  split at h
  · rename_i hb
    simp only [Bool.and_eq_true] at hb
    exact ⟨hb.1.2, hb.2⟩
  · simp at h

theorem slice?_refl {n : Nat} {cs : List Char} (h : isBoundary n cs = true) :
    slice? n n cs = some [] := by
  simp [slice?, h]

/-- A slice that reaches to the end is all that is left. -/
theorem slice?_byteLength {n : Nat} {cs text : List Char}
    (h : slice? n (byteLength cs) cs = some text) : dropBytes n cs = text := by
  obtain ⟨before, after, hcs, rfl, hstop⟩ := slice?_eq_some_iff.1 h
  have hafter : after = [] := by
    cases after with
    | nil => rfl
    | cons c after =>
      have := c.utf8Size_pos
      rw [hcs] at hstop
      simp only [byteLength_append, byteLength_cons] at hstop
      omega
  rw [hcs, hafter, List.append_nil, dropBytes_append]

theorem slice?_append {lo mid hi : Nat} {cs as bs : List Char} (ha : slice? lo mid cs = some as)
    (hb : slice? mid hi cs = some bs) : slice? lo hi cs = some (as ++ bs) := by
  obtain ⟨before, after, hcs, hlo, hmid⟩ := slice?_eq_some_iff.1 ha
  obtain ⟨before', after', hcs', hmid', hhi⟩ := slice?_eq_some_iff.1 hb
  obtain ⟨es, hes⟩ : ∃ es, before' = before ++ as ++ es := by
    rw [hcs, List.append_assoc before'] at hcs'
    exact exists_append_of_byteLength_le hcs' (by rw [byteLength_append]; omega)
  have hnil : es = [] := by
    cases es with
    | nil => rfl
    | cons e es =>
      have := e.utf8Size_pos
      rw [hes] at hmid'
      simp only [byteLength_append, byteLength_cons] at hmid'
      omega
  refine slice?_eq_some_iff.2 ⟨before, after', ?_, hlo, ?_⟩
  · rw [hcs', hes, hnil]
    simp
  · rw [byteLength_append]
    omega

/-- A slice stays one when text is appended. -/
theorem slice?_append_right {lo hi : Nat} {cs text : List Char} (h : slice? lo hi cs = some text)
    (more : List Char) : slice? lo hi (cs ++ more) = some text := by
  obtain ⟨before, after, rfl, hlo, hhi⟩ := slice?_eq_some_iff.1 h
  exact slice?_eq_some_iff.2 ⟨before, after ++ more, by simp, hlo, hhi⟩

/-- What is left at the beginning of a slice starts with the slice. -/
theorem dropBytes_of_slice? {lo hi : Nat} {cs text : List Char}
    (h : slice? lo hi cs = some text) : dropBytes lo cs = text ++ dropBytes hi cs := by
  obtain ⟨before, after, rfl, rfl, rfl⟩ := slice?_eq_some_iff.1 h
  rw [← byteLength_append, dropBytes_append, List.append_assoc, dropBytes_append]

/-- A slice that is not empty begins with the character at its start. -/
theorem mem_of_slice? {hi : Nat} {before after text : List Char} {c : Char}
    (h : slice? (byteLength before) hi (before ++ c :: after) = some text)
    (hlt : byteLength before < hi) : c ∈ text := by
  have hdrop := dropBytes_of_slice? h
  rw [dropBytes_append] at hdrop
  cases text with
  | nil =>
    obtain ⟨_, _, -, -, hhi⟩ := slice?_eq_some_iff.1 h
    exact absurd hhi (Nat.ne_of_lt hlt)
  | cons d text =>
    obtain ⟨rfl, -⟩ := List.cons.inj hdrop
    exact List.mem_cons_self

theorem length_of_slice? {lo hi : Nat} {cs text : List Char} (h : slice? lo hi cs = some text) :
    lo + byteLength text = hi := by
  obtain ⟨before, after, -, -, hhi⟩ := slice?_eq_some_iff.1 h
  exact hhi

end BuildTyping
