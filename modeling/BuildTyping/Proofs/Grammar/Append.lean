import BuildTyping.Proofs.Grammar.StmtLockstep

/-!
# Programs of a longer source

When text is appended to a source that ends with a line, its program goes on at its end: the last
statements in it may become longer, and others may follow them.
-/

namespace BuildTyping

open Reader

namespace Fork

variable {F : Fork}

theorem ahead_start {us ts : List Token} (h : Marked ts) (file : String) :
    (Reader.start (us ++ ts) file).ahead = us ++ ts := by
  obtain ⟨vs, t, rfl, hk⟩ := h
  rw [← List.append_assoc]
  exact Reader.ahead_start hk file

theorem consumed_start (ts : List Token) (file : String) :
    (Reader.start ts file).consumed = [] := by
  simp only [Reader.start]
  split <;> rfl

/-- Readers at the start of both lists are together, if the lists have a line in common. -/
theorem together_start (F : Fork) (file : String) :
    F.Together (Reader.start (F.shared ++ F.closers) file)
        (Reader.start (F.shared ++ F.more) file) ∨
      F.Parted (Reader.start (F.shared ++ F.closers) file)
        (Reader.start (F.shared ++ F.more) file) := by
  have hr : (Reader.start (F.shared ++ F.closers) file).ahead = F.shared ++ F.closers :=
    ahead_start F.closers_marked file
  have hq : (Reader.start (F.shared ++ F.more) file).ahead = F.shared ++ F.more :=
    ahead_start F.more_marked file
  rcases F.lines with hshared | ⟨ts, t, hshared, hk⟩
  · simp only [hshared, List.nil_append] at hr hq ⊢
    exact .inr (.of_ahead hr hq (by rw [hshared]; exact .nil))
  · left
    refine ⟨⟨ts, t, hk, ?_, ?_, ?_⟩, ?_, ?_, ?_⟩
    · rw [consumed_start, List.reverse_nil, List.nil_append, hshared]
    · rw [hr, hshared, List.append_assoc, List.singleton_append]
    · rw [hq, hshared, List.append_assoc, List.singleton_append]
    · rw [consumed_start, consumed_start]
    · rw [count_start, count_start]
    · rw [consumed_start]
      exact .nil

end Fork

namespace Program

/-- The program of the second list goes on from that of the first one. -/
theorem ofTokens_goes (F : Fork) {file : String} {p p' : Program} {r q : Reader}
    (h : ofTokens (F.shared ++ F.closers) file = .ok p r)
    (h' : ofTokens (F.shared ++ F.more) file = .ok p' q) :
    Parse.BlockGoes F p.body p'.body ∧ Apart F.shared := by
  refine program_meets (ended_start _ file) ((F.together_start file).imp_left fun ht => ⟨ht, ?_⟩)
    h h'
  intro _ t ht
  simp [Fork.consumed_start] at ht

end Program

/-- Tokens that are not all of a list with a mark at its end leave the mark to the others. -/
theorem Marked.of_append {us ts ws : List Token} {t : Token} (h : us ++ ts = ws ++ [t])
    (hne : ts ≠ []) (hk : t.kind = .endOfSource) : Marked ts ∧ ∀ u ∈ us, u ∈ ws := by
  obtain ⟨vs, u, rfl⟩ := (List.eq_nil_or_concat ts).resolve_left hne
  rw [List.concat_eq_append, ← List.append_assoc] at h
  obtain ⟨rfl, htail⟩ := List.append_inj' h rfl
  cases htail
  exact ⟨⟨vs, t, List.concat_eq_append, hk⟩, fun u hu => List.mem_append_left _ hu⟩

namespace Program

variable {source more : List Char} {file : String} {p p' : Program}

/-- When text is appended to a source that ends with a line, the program goes on with statements
whose expressions stand in that text. -/
theorem body_extends (hline : endsLine source file = true)
    (hshort : byteLength (source ++ more) < 2 ^ 32) (h : ofSource source file = .ok p)
    (h' : ofSource (source ++ more) file = .ok p') :
    Stmt.BlockExtends (fun e => byteLength source ≤ e.span.start.offset) p.body p'.body := by
  have hsource : byteLength source < 2 ^ 32 := Nat.lt_of_le_of_lt (by simp) hshort
  obtain ⟨ts, r, hts, hp⟩ := ofSource_ok.1 h
  obtain ⟨ts', r', hts', hp'⟩ := ofSource_ok.1 h'
  obtain ⟨us, ⟨⟨closers, rfl, hne, hclosing⟩, hlines⟩, hmore⟩ := tokens_append hline hsource hts
  obtain ⟨-, vs, hvs, hunmarked⟩ := tokens_tile hsource hts
  obtain ⟨hmarked, hmem⟩ := Marked.of_append hvs hne rfl
  have lines : us = [] ∨ ∃ ts t, us = ts ++ [t] ∧ t.kind = .newline := hlines.imp_left And.left
  have unmarked (t : Token) (ht : t ∈ us) : t.kind ≠ .endOfSource := hunmarked t (hmem t ht)
  -- the tokens of the source beside themselves: no string follows another one
  have hapart : Apart us :=
    (ofTokens_goes ⟨us, closers, closers, 0, lines, unmarked, hclosing, hmarked, hmarked,
      fun _ _ => Nat.zero_le _⟩ hp hp).2
  obtain ⟨added, rfl, hstart⟩ := hmore hapart more ts' hshort hts'
  obtain ⟨-, ws, hws, hunmarked'⟩ := tokens_tile hshort hts'
  have hadded : added ≠ [] := by
    rintro rfl
    rw [List.append_nil] at hws
    exact unmarked (.endAt _) (hws ▸ List.mem_append_right ws (List.mem_singleton_self _)) rfl
  exact (ofTokens_goes ⟨us, closers, added, byteLength source, lines, unmarked, hclosing, hmarked,
    (Marked.of_append hws hadded rfl).1, hstart⟩ hp hp').1

end Program

end BuildTyping
