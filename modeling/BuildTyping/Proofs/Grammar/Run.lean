import BuildTyping.Grammar.Reader

/-!
# How a parse runs

One equation for each primitive, at the end of a parse and before the rest of one, and the
induction rules of the loops.
-/

namespace BuildTyping.Parse

variable {α β : Type} {r r' : Reader}

/-- A sequence succeeds where its first part does and the rest does from there. -/
theorem bind_ok {x : Parse α} {f : α → Parse β} {b : β} :
    (x >>= f) r = .ok b r' ↔ ∃ a mid, x r = .ok a mid ∧ f a mid = .ok b r' := by
  constructor
  · intro h
    simp only [bind, EStateM.bind] at h
    cases hx : x r with
    | ok a mid => exact ⟨a, mid, rfl, by simpa [hx] using h⟩
    | error fault mid => simp [hx] at h
  · rintro ⟨a, mid, hx, hf⟩
    simp [bind, EStateM.bind, hx, hf]

theorem bind_of_ok {x : Parse α} {a : α} (h : x r = .ok a r') (f : α → Parse β) :
    (x >>= f) r = f a r' := by
  simp [bind, EStateM.bind, h]

theorem map_ok {x : Parse α} {f : α → β} {b : β} :
    (f <$> x) r = .ok b r' ↔ ∃ a, x r = .ok a r' ∧ f a = b := by
  simp only [Functor.map, EStateM.map]
  cases hx : x r with
  | ok a mid =>
    constructor
    · intro h
      cases h
      exact ⟨a, rfl, rfl⟩
    · rintro ⟨a', ha, rfl⟩
      cases ha
      rfl
  | error fault mid => simp

theorem pure_run (a : α) : (pure a : Parse α) r = .ok a r := rfl
theorem pure_bind_run (a : α) (f : α → Parse β) : ((pure a : Parse α) >>= f) r = f a r := rfl

theorem get_bind_run (f : Reader → Parse β) : ((get : Parse Reader) >>= f) r = f r r := rfl

theorem throw_run (fault : Fault) : (throw fault : Parse α) r = .error fault r := rfl

theorem kind_bind_run (f : TokenKind → Parse β) : (kind >>= f) r = f r.current.kind r := rfl

theorem advance_bind_run (f : Token → Parse β) : (advance >>= f) r = f r.current r.next := rfl

theorem spanFrom_bind_run (start : Position) (f : Span → Parse β) :
    (spanFrom start >>= f) r = f (r.spanFrom start) r := rfl

theorem unmet_run (message : String) : (unmet message : Parse α) r = .error (r.unmet message) r :=
  rfl

theorem node_run (span : Span) (shape : Shape Expr) :
    node span shape r = .ok ⟨r.count, span, shape⟩ { r with count := r.count + 1 } := rfl

theorem expect_run (expected : TokenKind) :
    expect expected r = if r.current.kind = expected then .ok r.current r.next
      else .error ⟨.unexpectedToken r.current.describe, r.current.span.start⟩ r := by
  simp only [expect, get_bind_run]
  split <;> rfl

theorem expectFor_run (expected : TokenKind) (message : String) :
    expectFor expected message r = if r.current.kind = expected then .ok r.current r.next
      else .error (r.unmet message) r := by
  simp only [expectFor, kind_bind_run]
  split <;> rfl

theorem expect_ok {expected : TokenKind} {t : Token} :
    expect expected r = .ok t r' ↔ r.current.kind = expected ∧ r.current = t ∧ r.next = r' := by
  rw [expect_run]
  split <;> simp [*]

theorem expectFor_ok {expected : TokenKind} {message : String} {t : Token} :
    expectFor expected message r = .ok t r' ↔
      r.current.kind = expected ∧ r.current = t ∧ r.next = r' := by
  rw [expectFor_run]
  split <;> simp [*]

/-- A loop ends with a turn that gives nothing. Another turn is the last if it reads no token. -/
theorem many_cases {item : Parse (Option α)} {as : List α} (h : many item r = .ok as r') :
    item r = .ok none r' ∧ as = [] ∨
    ∃ a mid others, item r = .ok (some a) mid ∧ as = a :: others ∧
      if mid.remaining < r.remaining then many item mid = .ok others r'
      else others = [] ∧ r' = mid := by
  rw [many] at h
  cases hi : item r with
  | error fault mid => simp [hi] at h
  | ok o mid =>
    cases o with
    | none =>
      simp only [hi] at h
      cases h
      exact .inl ⟨rfl, rfl⟩
    | some a =>
      simp only [hi] at h
      split at h
      · rename_i hlt
        cases hm : many item mid with
        | error fault last => simp [hm] at h
        | ok others last =>
          simp only [hm] at h
          cases h
          exact .inr ⟨a, mid, others, rfl, rfl, by rw [if_pos hlt, hm]⟩
      · rename_i hlt
        cases h
        exact .inr ⟨a, r', [], rfl, rfl, by rw [if_neg hlt]; exact ⟨rfl, rfl⟩⟩

theorem iterate_cases {turn : α → Parse (Option α)} {a b : α} (h : iterate turn a r = .ok b r') :
    turn a r = .ok none r' ∧ b = a ∨
    ∃ c mid, turn a r = .ok (some c) mid ∧
      if mid.remaining < r.remaining then iterate turn c mid = .ok b r' else b = c ∧ r' = mid := by
  rw [iterate] at h
  cases ht : turn a r with
  | error fault mid => simp [ht] at h
  | ok o mid =>
    cases o with
    | none =>
      simp only [ht] at h
      cases h
      exact .inl ⟨rfl, rfl⟩
    | some c =>
      simp only [ht] at h
      refine .inr ⟨c, mid, rfl, ?_⟩
      split at h
      · rename_i hlt
        rwa [if_pos hlt]
      · rename_i hlt
        cases h
        rw [if_neg hlt]
        exact ⟨rfl, rfl⟩

/-- What holds of the last turn of a loop, and before a turn whenever it holds after, holds of the
loop. -/
theorem many_induction {item : Parse (Option α)} {P : Reader → List α → Reader → Prop}
    (stop : ∀ {r r'}, item r = .ok none r' → P r [] r')
    (last : ∀ {r a r'}, item r = .ok (some a) r' → P r [a] r')
    (more : ∀ {r a mid as r'}, item r = .ok (some a) mid → P mid as r' → P r (a :: as) r')
    {as : List α} (h : many item r = .ok as r') : P r as r' := by
  fun_induction many item r generalizing as r' with
  | case1 => simp at h
  | case2 r mid hi =>
    cases h
    exact stop hi
  | case3 => simp at h
  | case4 r a mid hi hlt bs last hm ih =>
    cases h
    exact more hi (ih hm)
  | case5 r a mid hi hlt =>
    cases h
    exact last hi

/-- What holds at first and is kept by each turn holds at the end of the turns. -/
theorem iterate_induction {turn : α → Parse (Option α)} {P : α → Reader → Prop}
    (stop : ∀ {a r r'}, P a r → turn a r = .ok none r' → P a r')
    (more : ∀ {a r b r'}, P a r → turn a r = .ok (some b) r' → P b r')
    {a b : α} (first : P a r) (h : iterate turn a r = .ok b r') : P b r' := by
  fun_induction iterate turn a r with
  | case1 => simp at h
  | case2 a r mid ht =>
    cases h
    exact stop first ht
  | case3 a r c mid ht hlt ih => exact ih (more first ht) h
  | case4 a r c mid ht hlt =>
    cases h
    exact more first ht

end BuildTyping.Parse
