import BuildTyping.Grammar.Reader
import BuildTyping.Proofs.Grammar.Run
import BuildTyping.Proofs.Grammar.Tree
import BuildTyping.Proofs.Syntax.Words

/-!
# What a parse gives

A parse that succeeds is known by its result and by the words that it leaves. Each primitive has a
rule that goes past the words ahead, and the loops have a rule for their turns.
-/

namespace BuildTyping

namespace Reader

variable {r : Reader} {w u : Word} {ws : List Word}

/-- The words of the current token and of those after it. -/
def words (r : Reader) : List Word := r.ahead.map Token.word

theorem words_length (r : Reader) : r.words.length = r.remaining + 1 := by
  simp [words, ahead, r.remaining_eq]

theorem current_word (h : r.words = w :: ws) : r.current.word = w := by
  simp only [words, ahead, List.map_cons, List.cons.injEq] at h
  exact h.1

theorem current_kind (h : r.words = w :: ws) : r.current.kind = w.kind := by
  rw [← current_word h, Token.word]

theorem words_next (h : r.words = w :: ws) (hne : ws ≠ []) : r.next.words = ws := by
  have hws : r.upcoming.map Token.word = ws := (List.cons.inj h).2
  have hu : r.upcoming ≠ [] := fun hu => hne (by rw [← hws, hu, List.map_nil])
  rw [words, ahead_next rfl hu, hws]

theorem peek_one (h : r.words = w :: u :: ws) : r.peek 1 = u.kind := by
  simp only [words, ahead, List.map_cons, List.cons.injEq] at h
  obtain ⟨-, h⟩ := h
  cases hu : r.upcoming with
  | nil => simp [hu] at h
  | cons t ts =>
    simp only [hu, List.map_cons, List.cons.injEq] at h
    simp [peek, hu, ← h.1, Token.word]

end Reader

namespace Parse

variable {α β γ : Type} {x : Parse α} {r : Reader} {P : α → Prop} {Q : β → Prop}
variable {mid rest ws : List Word} {w u : Word}

/-- The parse succeeds with a result of which `P` holds, and leaves the words `rest`. -/
def Gives (x : Parse α) (r : Reader) (P : α → Prop) (rest : List Word) : Prop :=
  ∃ a r', x r = .ok a r' ∧ P a ∧ r'.words = rest

namespace Gives

theorem bind {f : α → Parse β} (h : Gives x r P mid)
    (hf : ∀ a r', P a → r'.words = mid → Gives (f a) r' Q rest) : Gives (x >>= f) r Q rest := by
  obtain ⟨a, r', hx, hP, hr'⟩ := h
  obtain ⟨b, r'', hb, hQ, hr''⟩ := hf a r' hP hr'
  exact ⟨b, r'', by rw [bind_of_ok hx, hb], hQ, hr''⟩

theorem of_run {y : Parse α} (heq : x r = y r) (h : Gives y r P rest) : Gives x r P rest := by
  obtain ⟨a, r', hy, hP, hr'⟩ := h
  exact ⟨a, r', heq.trans hy, hP, hr'⟩

theorem mono {P' : α → Prop} (h : Gives x r P rest) (hP : ∀ a, P a → P' a) : Gives x r P' rest := by
  obtain ⟨a, r', hx, ha, hr'⟩ := h
  exact ⟨a, r', hx, hP a ha, hr'⟩

theorem map {f : α → β} (h : Gives x r P rest) (hQ : ∀ a, P a → Q (f a)) :
    Gives (f <$> x) r Q rest := by
  obtain ⟨a, r', hx, hP, hr'⟩ := h
  exact ⟨f a, r', map_ok.2 ⟨a, hx, rfl⟩, hQ a hP, hr'⟩

theorem pure {a : α} (hr : r.words = rest) (h : P a) : Gives (pure a) r P rest :=
  ⟨a, r, rfl, h, hr⟩

theorem ite_pos {c : Prop} [Decidable c] {y : Parse α} (hc : c) (h : Gives x r P rest) :
    Gives (if c then x else y) r P rest := by
  rwa [if_pos hc]

theorem ite_neg {c : Prop} [Decidable c] {y : Parse α} (hc : ¬c) (h : Gives x r P rest) :
    Gives (if c then y else x) r P rest := by
  rwa [if_neg hc]

theorem get {f : Reader → Parse β} (h : Gives (f r) r Q rest) :
    Gives ((MonadState.get : Parse Reader) >>= f) r Q rest := h

theorem kind {f : TokenKind → Parse β} (hr : r.words = w :: ws) (h : Gives (f w.kind) r Q rest) :
    Gives (Parse.kind >>= f) r Q rest := by
  obtain ⟨b, r', hb, hQ, hr'⟩ := h
  exact ⟨b, r', by rw [kind_bind_run, Reader.current_kind hr, hb], hQ, hr'⟩

theorem advance {f : Token → Parse β} (hr : r.words = w :: ws) (hne : ws ≠ [])
    (h : ∀ t r', t.word = w → r'.words = ws → Gives (f t) r' Q rest) :
    Gives (Parse.advance >>= f) r Q rest :=
  bind (P := fun t => t.word = w) ⟨_, _, rfl, Reader.current_word hr, Reader.words_next hr hne⟩
    fun t r' ht hr' => h t r' ht hr'

theorem expect {f : Token → Parse β} {expected : TokenKind} (hr : r.words = w :: ws)
    (hk : w.kind = expected) (hne : ws ≠ [])
    (h : ∀ t r', t.word = w → r'.words = ws → Gives (f t) r' Q rest) :
    Gives (Parse.expect expected >>= f) r Q rest :=
  bind (P := fun t => t.word = w)
    ⟨_, _, expect_ok.2 ⟨hk ▸ Reader.current_kind hr, rfl, rfl⟩, Reader.current_word hr,
      Reader.words_next hr hne⟩ fun t r' ht hr' => h t r' ht hr'

theorem expectFor {f : Token → Parse β} {expected : TokenKind} {message : String}
    (hr : r.words = w :: ws) (hk : w.kind = expected) (hne : ws ≠ [])
    (h : ∀ t r', t.word = w → r'.words = ws → Gives (f t) r' Q rest) :
    Gives (Parse.expectFor expected message >>= f) r Q rest :=
  bind (P := fun t => t.word = w)
    ⟨_, _, expectFor_ok.2 ⟨hk ▸ Reader.current_kind hr, rfl, rfl⟩, Reader.current_word hr,
      Reader.words_next hr hne⟩ fun t r' ht hr' => h t r' ht hr'

theorem spanFrom {f : Span → Parse β} {start : Position} (h : ∀ span, Gives (f span) r Q rest) :
    Gives (Parse.spanFrom start >>= f) r Q rest := by
  obtain ⟨b, r', hb, hQ, hr'⟩ := h (r.spanFrom start)
  exact ⟨b, r', by rw [spanFrom_bind_run, hb], hQ, hr'⟩

theorem node {span : Span} {shape : Shape Expr} {P : Expr → Prop} (hr : r.words = rest)
    (h : ∀ id, P ⟨id, span, shape⟩) : Gives (node span shape) r P rest :=
  ⟨_, _, node_run span shape, h _, hr⟩

/-- A turn of a loop that goes past some words, and the turns after it. -/
theorem many_cons {item : Parse (Option α)} {f : α → γ} {c : γ} {cs : List γ}
    (h : Gives item r (fun o => ∃ a, o = some a ∧ f a = c) mid)
    (hlt : mid.length < r.words.length)
    (hrest : ∀ r' : Reader, r'.words = mid →
      Gives (many item) r' (fun as => as.map f = cs) rest) :
    Gives (many item) r (fun as => as.map f = c :: cs) rest := by
  obtain ⟨o, r', ho, ⟨a, rfl, ha⟩, hr'⟩ := h
  obtain ⟨as, r'', has, hmap, hr''⟩ := hrest r' hr'
  refine ⟨a :: as, r'', ?_, by simp [ha, hmap], hr''⟩
  have hless : r'.remaining < r.remaining := by
    have h := r.words_length
    have h' := r'.words_length
    rw [hr'] at h'
    omega
  rw [Parse.many, ho]
  simp only [hless, if_true, has]

/-- A loop over items, where `t` gives the words that are ahead before the items that are still
to come. -/
theorem many {item : Parse (Option α)} {f : α → γ} {g : β → γ} {t : List β → List Word}
    (hstop : ∀ r : Reader, r.words = t [] → Gives item r (fun o => o = none) rest)
    {bs : List β} (hturn : ∀ b, b ∈ bs → ∀ bs' (r : Reader), r.words = t (b :: bs') →
      (t (b :: bs')).length ≤ (t bs).length →
      Gives item r (fun o => ∃ a, o = some a ∧ f a = g b) (t bs'))
    (hlt : ∀ b, b ∈ bs → ∀ bs', (t bs').length < (t (b :: bs')).length)
    (hr : r.words = t bs) :
    Gives (many item) r (fun as => as.map f = bs.map g) rest := by
  -- the induction is on the items still to come, at whatever reader their words are ahead
  induction bs generalizing r with
  | nil =>
    obtain ⟨o, r', ho, rfl, hr'⟩ := hstop r hr
    exact ⟨[], r', by rw [Parse.many, ho], rfl, hr'⟩
  | cons b bs ih =>
    have hb := hlt b (by simp) bs
    refine many_cons (hturn b (by simp) bs r hr (by omega)) (by rw [hr]; exact hb)
      fun r' hr' => ih (fun c hc bs' r hr hle => ?_) (fun c hc => hlt c (by simp [hc])) hr'
    exact hturn c (by simp [hc]) bs' r hr (by omega)

end Gives

theorem iterate_stop {turn : α → Parse (Option α)} {a : α} (h : turn a r = .ok none r) :
    iterate turn a r = .ok a r := by
  rw [iterate, h]

theorem iterate_more {turn : α → Parse (Option α)} {a b : α} {r' : Reader}
    (h : turn a r = .ok (some b) r') (hlt : r'.words.length < r.words.length) :
    iterate turn a r = iterate turn b r' := by
  rw [Reader.words_length, Reader.words_length] at hlt
  rw [iterate, h]
  simp only [show r'.remaining < r.remaining by omega, if_true]

end Parse

end BuildTyping
