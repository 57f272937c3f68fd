import BuildTyping.Proofs.Grammar.Run
import BuildTyping.Proofs.Grammar.Tree
import BuildTyping.Proofs.Token.Append

/-!
# Two parses side by side

One list of tokens ends where the other goes on. A parse of each, side by side, does the same as
long as the readers are among the tokens that the lists share, and from where the first list only
closes what is open nothing is read from it.
-/

namespace BuildTyping

/-- The last of the tokens marks the end. -/
def Marked (ts : List Token) : Prop := ∃ us t, ts = us ++ [t] ∧ t.kind = .endOfSource

/-- Two lists of tokens that begin with the same lines. The first then only closes what is open,
and the other goes on behind an offset. -/
structure Fork where
  shared : List Token
  closers : List Token
  more : List Token
  offset : Nat
  lines : shared = [] ∨ ∃ ts t, shared = ts ++ [t] ∧ t.kind = .newline
  unmarked : ∀ t ∈ shared, t.kind ≠ .endOfSource
  closing : Closing closers
  closers_marked : Marked closers
  more_marked : Marked more
  le_start : ∀ t ∈ more, offset ≤ t.span.start.offset

theorem Marked.ne_nil {ts : List Token} (h : Marked ts) : ts ≠ [] := by
  obtain ⟨us, t, rfl, -⟩ := h
  simp

namespace TokenKind

/-- The kinds that neither end a line nor are strings. -/
def isPlain : TokenKind → Bool
  | newline | string => false
  | _ => true

theorem ne_newline_of_isPlain {kind : TokenKind} (h : kind.isPlain = true) : kind ≠ newline := by
  rintro rfl
  simp [isPlain] at h

theorem ne_string_of_isPlain {kind : TokenKind} (h : kind.isPlain = true) : kind ≠ string := by
  rintro rfl
  simp [isPlain] at h

end TokenKind

namespace Reader

/-- The current token does not follow a string as another string. -/
def Fresh (r : Reader) : Prop :=
  r.current.kind = .string → ∀ t ∈ r.consumed.head?, t.kind ≠ .string

theorem Fresh.of_kind {r : Reader} (h : r.current.kind ≠ .string) : r.Fresh := fun hk => absurd hk h

theorem fresh_next {r : Reader} (h : r.current.kind ≠ .string) : r.next.Fresh := by
  unfold next
  split
  · exact .of_kind h
  · rintro - t ht
    cases ht
    exact h

end Reader

namespace Fork

open Reader

/-- The readers are at the same token of the lines in common. -/
structure Together (F : Fork) (r q : Reader) : Prop where
  ahead : ∃ ts t, t.kind = .newline ∧ F.shared = r.consumed.reverse ++ (ts ++ [t]) ∧
    r.ahead = ts ++ t :: F.closers ∧ q.ahead = ts ++ t :: F.more
  consumed : q.consumed = r.consumed
  count : q.count = r.count
  apart : Apart r.consumed

/-- The first reader has only closing tokens ahead, and the other one is behind the lines in
common. -/
structure Parted (F : Fork) (r q : Reader) : Prop where
  closing : Closing r.ahead
  ended : q.Ended
  le_start : ∀ t ∈ q.ahead, F.offset ≤ t.span.start.offset
  apart : Apart F.shared

variable {F : Fork} {r q r' q' : Reader}

/-- At the end of the lines in common the readers part. -/
theorem Parted.of_ahead (hr : r.ahead = F.closers) (hq : q.ahead = F.more) (ha : Apart F.shared) :
    F.Parted r q where
  closing := hr ▸ F.closing
  ended := by
    obtain ⟨us, t, hmore, hk⟩ := F.more_marked
    exact ⟨t, by rw [hq, hmore, List.getLast?_concat], hk⟩
  le_start := hq ▸ F.le_start
  apart := ha

theorem Together.current (h : F.Together r q) : q.current = r.current := by
  obtain ⟨ts, t, -, -, hr, hq⟩ := h.ahead
  cases ts with
  | nil => rw [(List.cons.inj hq).1, (List.cons.inj hr).1]
  | cons u ts => rw [(List.cons.inj hq).1, (List.cons.inj hr).1]

theorem Together.mem_shared (h : F.Together r q) : r.current ∈ F.shared := by
  obtain ⟨ts, t, -, hshared, hr, -⟩ := h.ahead
  have hmem : r.current ∈ ts ++ [t] := by
    cases ts with
    | nil => simp [(List.cons.inj hr).1]
    | cons u ts => simp [(List.cons.inj hr).1]
  rw [hshared]
  exact List.mem_append_right _ hmem

theorem Together.spanFrom (h : F.Together r q) (start : Position) :
    q.spanFrom start = r.spanFrom start := by
  simp [Reader.spanFrom, previous?, h.consumed]

theorem remaining_eq_length (r : Reader) : r.remaining + 1 = r.ahead.length := by
  simp [Reader.ahead, r.remaining_eq]

theorem Together.remaining_lt_iff (h : F.Together r q) (h' : F.Together r' q') :
    q'.remaining < q.remaining ↔ r'.remaining < r.remaining := by
  obtain ⟨ts, t, -, -, hr, hq⟩ := h.ahead
  obtain ⟨us, u, -, -, hr', hq'⟩ := h'.ahead
  have h1 := remaining_eq_length r
  have h2 := remaining_eq_length q
  have h3 := remaining_eq_length r'
  have h4 := remaining_eq_length q'
  simp only [hr, hq, hr', hq', List.length_append, List.length_cons] at h1 h2 h3 h4
  omega

/-- Before the end of its line a token has the same token behind it. -/
theorem Together.peek_one (h : F.Together r q) (hk : r.current.kind ≠ .newline) :
    q.peek 1 = r.peek 1 := by
  obtain ⟨ts, t, ht, -, hr, hq⟩ := h.ahead
  have hpeek (r : Reader) : r.peek 1 = r.ahead[1]?.elim .endOfSource Token.kind := by
    rw [peek, Reader.ahead]
    cases (r.current :: r.upcoming)[1]? <;> rfl
  rw [hpeek, hpeek, hr, hq]
  cases ts with
  | nil =>
    have hcurrent : r.current = t := (List.cons.inj hr).1
    exact absurd ht (hcurrent ▸ hk)
  | cons u ts => cases ts <;> rfl

/-- A node takes the same id from both. -/
theorem Together.count_succ (h : F.Together r q) :
    F.Together { r with count := r.count + 1 } { q with count := q.count + 1 } where
  ahead := h.ahead
  consumed := h.consumed
  count := by rw [h.count]
  apart := h.apart

theorem apart_cons (ha : Apart r.consumed) (hf : r.Fresh) : Apart (r.current :: r.consumed) :=
  List.isChain_cons.2 ⟨fun t ht hk => hf hk.1 t ht hk.2, ha⟩

/-- Behind a token that is not the last one in common the readers are still together. -/
theorem Together.next_of_cons (h : F.Together r q) (hf : r.Fresh) {u t : Token}
    {ts : List Token} (ht : t.kind = .newline)
    (hshared : F.shared = r.consumed.reverse ++ (u :: ts ++ [t]))
    (hr : r.ahead = u :: (ts ++ t :: F.closers)) (hq : q.ahead = u :: (ts ++ t :: F.more)) :
    F.Together r.next q.next where
  ahead := by
    refine ⟨ts, t, ht, ?_, ahead_next hr (by simp), ahead_next hq (by simp)⟩
    rw [consumed_next hr (by simp), hshared]
    simp
  consumed := by rw [consumed_next hr (by simp), consumed_next hq (by simp), h.consumed]
  count := by rw [count_next, count_next, h.count]
  apart := by
    rw [consumed_next hr (by simp), ← (List.cons.inj hr).1]
    exact apart_cons h.apart hf

/-- Behind a token that ends no line the readers are still together. -/
theorem Together.next (h : F.Together r q) (hf : r.Fresh) (hk : r.current.kind ≠ .newline) :
    F.Together r.next q.next := by
  obtain ⟨ts, t, ht, hshared, hr, hq⟩ := h.ahead
  cases ts with
  | nil =>
    have hcurrent : r.current = t := (List.cons.inj hr).1
    exact absurd ht (hcurrent ▸ hk)
  | cons u ts => exact h.next_of_cons hf ht hshared hr hq

/-- Behind a line the readers are together, or it was the last one in common. -/
theorem Together.next_line (h : F.Together r q) (hk : r.current.kind = .newline) :
    F.Together r.next q.next ∨ F.Parted r.next q.next := by
  have hf : r.Fresh := .of_kind (by simp [hk])
  obtain ⟨ts, t, ht, hshared, hr, hq⟩ := h.ahead
  cases ts with
  | nil =>
    right
    refine .of_ahead (ahead_next hr F.closers_marked.ne_nil) (ahead_next hq F.more_marked.ne_nil) ?_
    have hcurrent : r.current = t := (List.cons.inj hr).1
    have hapart := apart_cons h.apart hf
    rw [hcurrent] at hapart
    have hreverse : F.shared = (t :: r.consumed).reverse := by simp [hshared]
    rw [hreverse, Apart, List.isChain_reverse]
    exact hapart.imp fun _ _ hne hk => hne ⟨hk.2, hk.1⟩
  | cons u ts => exact .inl (h.next_of_cons hf ht hshared hr hq)

end Fork

namespace Parse

open Reader

variable {α β : Type} {F : Fork} {x y : Parse α} {f g : α → Parse β} {r q : Reader}

/-- Where both parses succeed, the relation holds between what they give and where they stop. -/
def Meets (R : α → Reader → α → Reader → Prop) (x : Parse α) (r : Reader) (y : Parse α)
    (q : Reader) : Prop :=
  ∀ ⦃a r' b q'⦄, x r = .ok a r' → y q = .ok b q' → R a r' b q'

/-- Where both parses succeed, they give the same and their readers stay together. -/
def Agrees (F : Fork) : Parse α → Reader → Parse α → Reader → Prop :=
  Meets fun a r' b q' => b = a ∧ F.Together r' q'

/-- The parses agree from readers that are together and before no second string. -/
def Keeps (F : Fork) (x y : Parse α) : Prop :=
  ∀ ⦃r q⦄, F.Together r q → r.Fresh → Agrees F x r y q

namespace Meets

variable {S : α → Reader → α → Reader → Prop} {R : β → Reader → β → Reader → Prop}

theorem bind (h : Meets S x r y q)
    (hfg : ∀ a r' b q', S a r' b q' → Meets R (f a) r' (g b) q') :
    Meets R (x >>= f) r (y >>= g) q := by
  intro c r'' d q'' hx hy
  obtain ⟨a, r', ha, hc⟩ := bind_ok.1 hx
  obtain ⟨b, q', hb, hd⟩ := bind_ok.1 hy
  exact hfg a r' b q' (h ha hb) hc hd

theorem map {f : α → β} (h : Meets S x r y q)
    (hR : ∀ a r' b q', S a r' b q' → R (f a) r' (f b) q') :
    Meets R (f <$> x) r (f <$> y) q := by
  intro c r' d q' hx hy
  obtain ⟨a, ha, rfl⟩ := map_ok.1 hx
  obtain ⟨b, hb, rfl⟩ := map_ok.1 hy
  exact hR a r' b q' (h ha hb)

theorem pure {a b : α} (h : S a r b q) : Meets S (pure a) r (pure b) q := by
  intro a' r' b' q' hx hy
  cases hx
  cases hy
  exact h

theorem ite {c : Prop} [Decidable c] {x' y' : Parse α} (h : c → Meets S x r y q)
    (h' : ¬c → Meets S x' r y' q) :
    Meets S (if c then x else x') r (if c then y else y') q := by
  split
  · exact h ‹_›
  · exact h' ‹_›

/-- Of a parse that fails nothing is asked. -/
theorem failed (h : ∀ a r', x r ≠ .ok a r') : Meets S x r y q :=
  fun a r' _ _ hx _ => absurd hx (h a r')

theorem unmet {message : String} : Meets S (unmet message) r y q :=
  failed fun a r' h => by simp [unmet_run] at h

theorem unexpected {t : Token} : Meets S (unexpected t) r y q :=
  failed fun a r' h => by simp [Parse.unexpected, throw_run] at h

theorem throw {fault : Fault} : Meets S (throw fault) r y q :=
  failed fun a r' h => by simp [throw_run] at h

theorem get {f g : Reader → Parse β} (h : Meets R (f r) r (g q) q) :
    Meets R ((MonadState.get : Parse Reader) >>= f) r ((MonadState.get : Parse Reader) >>= g) q := h

section Together

variable {f g : TokenKind → Parse β}

theorem kind (h : F.Together r q) (hfg : Meets R (f r.current.kind) r (g r.current.kind) q) :
    Meets R (Parse.kind >>= f) r (Parse.kind >>= g) q := by
  intro c r' d q' hx hy
  rw [kind_bind_run] at hx hy
  rw [h.current] at hy
  exact hfg hx hy

end Together

variable {f g : Token → Parse β}

theorem advance (h : F.Together r q) (hk : r.current.kind.isPlain = true)
    (hfg : F.Together r.next q.next → r.next.Fresh →
      Meets R (f r.current) r.next (g r.current) q.next) :
    Meets R (Parse.advance >>= f) r (Parse.advance >>= g) q := by
  have hs := TokenKind.ne_string_of_isPlain hk
  have hn := h.next (.of_kind hs) (TokenKind.ne_newline_of_isPlain hk)
  intro c r' d q' hx hy
  rw [advance_bind_run] at hx hy
  rw [h.current] at hy
  exact hfg hn (fresh_next hs) hx hy

/-- At the end of a line the readers may part. -/
theorem advance_line (h : F.Together r q) (hk : r.current.kind = .newline)
    (htogether : F.Together r.next q.next → r.next.Fresh →
      Meets R (f r.current) r.next (g r.current) q.next)
    (hparted : F.Parted r.next q.next → Meets R (f r.current) r.next (g r.current) q.next) :
    Meets R (Parse.advance >>= f) r (Parse.advance >>= g) q := by
  intro c r' d q' hx hy
  rw [advance_bind_run] at hx hy
  rw [h.current] at hy
  rcases h.next_line hk with h' | h'
  · exact htogether h' (fresh_next (by simp [hk])) hx hy
  · exact hparted h' hx hy

/-- A parse that reads a token of one kind reads the same token on both sides. -/
theorem token {x : Parse Token} {expected : TokenKind}
    (hx : ∀ r t r', x r = .ok t r' ↔ r.current.kind = expected ∧ r.current = t ∧ r.next = r')
    (h : F.Together r q) (hk : expected.isPlain = true)
    (hfg : F.Together r.next q.next → r.next.Fresh →
      Meets R (f r.current) r.next (g r.current) q.next) :
    Meets R (x >>= f) r (x >>= g) q := by
  intro c r'' d q'' hc hd
  obtain ⟨t, r', ht, hc⟩ := bind_ok.1 hc
  obtain ⟨u, q', hu, hd⟩ := bind_ok.1 hd
  obtain ⟨hr, rfl, rfl⟩ := (hx r t r').1 ht
  obtain ⟨-, rfl, rfl⟩ := (hx q u q').1 hu
  refine advance h (by rwa [hr]) hfg ?_ ?_
  · rwa [advance_bind_run]
  · rwa [advance_bind_run]

theorem expect {expected : TokenKind} (h : F.Together r q) (hk : expected.isPlain = true)
    (hfg : F.Together r.next q.next → r.next.Fresh →
      Meets R (f r.current) r.next (g r.current) q.next) :
    Meets R (Parse.expect expected >>= f) r (Parse.expect expected >>= g) q :=
  token (fun _ _ _ => expect_ok) h hk hfg

theorem expectFor {expected : TokenKind} {message : String} (h : F.Together r q)
    (hk : expected.isPlain = true)
    (hfg : F.Together r.next q.next → r.next.Fresh →
      Meets R (f r.current) r.next (g r.current) q.next) :
    Meets R (Parse.expectFor expected message >>= f) r (Parse.expectFor expected message >>= g)
      q :=
  token (fun _ _ _ => expectFor_ok) h hk hfg

/-- Both parses take the same side of a bound on what is left. -/
theorem guarded {x' y' : Parse α} {r1 q1 : Reader} (h : F.Together r q) (h1 : F.Together r1 q1)
    (hx : r1.remaining < r.remaining → Meets S x r1 y q1) (hx' : Meets S x' r1 y' q1) :
    Meets S (fun r1 => if r1.remaining < r.remaining then x r1 else x' r1) r1
      (fun q1 => if q1.remaining < q.remaining then y q1 else y' q1) q1 := by
  intro a r' b q' ha hb
  simp only [h.remaining_lt_iff h1] at ha hb
  split at ha
  · rename_i hlt
    rw [if_pos hlt] at hb
    exact hx hlt ha hb
  · rename_i hlt
    rw [if_neg hlt] at hb
    exact hx' ha hb

theorem spanFrom {f g : Span → Parse β} {start : Position} (h : F.Together r q)
    (hfg : ∀ span, Meets R (f span) r (g span) q) :
    Meets R (Parse.spanFrom start >>= f) r (Parse.spanFrom start >>= g) q := by
  intro c r' d q' hx hy
  rw [spanFrom_bind_run] at hx hy
  rw [h.spanFrom] at hy
  exact hfg _ hx hy

end Meets

namespace Agrees

variable {R : β → Reader → β → Reader → Prop}

theorem bind (h : Agrees F x r y q)
    (hfg : ∀ a r' q', F.Together r' q' → Meets R (f a) r' (g a) q') :
    Meets R (x >>= f) r (y >>= g) q := by
  refine Meets.bind h ?_
  rintro _ r' a q' ⟨rfl, h'⟩
  exact hfg a r' q' h'

theorem map {f : α → β} (h : Agrees F x r y q) : Agrees F (f <$> x) r (f <$> y) q := by
  refine Meets.map h ?_
  rintro a r' _ q' ⟨rfl, h'⟩
  exact ⟨rfl, h'⟩

theorem pure {a : α} (h : F.Together r q) : Agrees F (pure a) r (pure a) q := Meets.pure ⟨rfl, h⟩

theorem node {span : Span} {shape : Shape Expr} (h : F.Together r q) :
    Agrees F (node span shape) r (node span shape) q := by
  intro a r' b q' hx hy
  rw [node_run] at hx hy
  cases hx
  cases hy
  exact ⟨by rw [h.count], h.count_succ⟩

/-- A loop whose turns agree agrees. What is to hold before a turn holds after one that gave
something. -/
theorem many_while {item item' : Parse (Option α)} {I : Reader → Prop}
    (hitem : ∀ r q, F.Together r q → I r →
      Meets (fun o r' o' q' => o' = o ∧ F.Together r' q' ∧ (o.isSome = true → I r')) item r item' q)
    (h : F.Together r q) (hI : I r) : Agrees F (many item) r (many item') q := by
  induction hn : r.remaining using Nat.strongRecOn generalizing r q with
  | ind n ih =>
    subst hn
    intro as r' bs q' hx hy
    rcases many_cases hx with ⟨hi, rfl⟩ | ⟨a, mid, others, hi, rfl, hmore⟩
    · rcases many_cases hy with ⟨hi', rfl⟩ | ⟨b, mid', others', hi', -⟩
      · exact ⟨rfl, (hitem r q h hI hi hi').2.1⟩
      · cases (hitem r q h hI hi hi').1
    · rcases many_cases hy with ⟨hi', rfl⟩ | ⟨b, mid', others', hi', rfl, hmore'⟩
      · cases (hitem r q h hI hi hi').1
      · obtain ⟨heq, hmid, hsome⟩ := hitem r q h hI hi hi'
        cases heq
        simp only [h.remaining_lt_iff hmid] at hmore'
        split at hmore
        · rename_i hlt
          rw [if_pos hlt] at hmore'
          obtain ⟨rfl, h'⟩ := ih _ hlt hmid (hsome rfl) rfl hmore hmore'
          exact ⟨rfl, h'⟩
        · rename_i hlt
          rw [if_neg hlt] at hmore'
          obtain ⟨rfl, rfl⟩ := hmore
          obtain ⟨rfl, rfl⟩ := hmore'
          exact ⟨rfl, hmid⟩

theorem many {item item' : Parse (Option α)}
    (hitem : ∀ r q, F.Together r q → Agrees F item r item' q) (h : F.Together r q) :
    Agrees F (many item) r (many item') q := by
  refine many_while (I := fun _ => True) (fun r q h _ => ?_) h trivial
  intro o r' o' q' hx hy
  obtain ⟨heq, h'⟩ := hitem r q h hx hy
  exact ⟨heq, h', fun _ => trivial⟩

theorem iterate {turn turn' : α → Parse (Option α)}
    (hturn : ∀ a r q, F.Together r q → Agrees F (turn a) r (turn' a) q) (a : α)
    (h : F.Together r q) : Agrees F (iterate turn a) r (iterate turn' a) q := by
  induction hn : r.remaining using Nat.strongRecOn generalizing r q a with
  | ind n ih =>
    subst hn
    intro b r' b' q' hx hy
    rcases iterate_cases hx with ⟨ht, rfl⟩ | ⟨c, mid, ht, hmore⟩
    · rcases iterate_cases hy with ⟨ht', rfl⟩ | ⟨c', mid', ht', -⟩
      · exact ⟨rfl, (hturn _ r q h ht ht').2⟩
      · cases (hturn _ r q h ht ht').1
    · rcases iterate_cases hy with ⟨ht', rfl⟩ | ⟨c', mid', ht', hmore'⟩
      · cases (hturn _ r q h ht ht').1
      · obtain ⟨heq, hmid⟩ := hturn _ r q h ht ht'
        cases heq
        simp only [h.remaining_lt_iff hmid] at hmore'
        split at hmore
        · rename_i hlt
          rw [if_pos hlt] at hmore'
          exact ih _ hlt c hmid rfl hmore hmore'
        · rename_i hlt
          rw [if_neg hlt] at hmore'
          obtain ⟨rfl, rfl⟩ := hmore
          obtain ⟨rfl, rfl⟩ := hmore'
          exact ⟨rfl, hmid⟩

end Agrees

end Parse

end BuildTyping
