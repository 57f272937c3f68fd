import BuildTyping.Proofs.Token.Written

/-!
# Balanced tokens

Between an opening bracket and the bracket that closes it stand balanced tokens. Behind a bracket
that is not closed no token closes more than what is opened behind it.
-/

namespace BuildTyping

/-- Whether a token is a bracket that closes another one. -/
def Token.Closes (t : Token) : Prop := ∃ b, t.kind = .closing b

/-- Tokens in which each bracket is closed by another one, whatever its kind. -/
inductive Balanced : List Token → Prop where
  | nil : Balanced []
  | plain {t : Token} {ts : List Token} (hopen : ∀ b, t.kind ≠ .opening b) (hclose : ¬t.Closes)
      (more : Balanced ts) : Balanced (t :: ts)
  | pair {o c : Token} {b : Bracket} {inner ts : List Token} (hopen : o.kind = .opening b)
      (hclose : c.Closes) (inside : Balanced inner) (more : Balanced ts) :
      Balanced (o :: (inner ++ c :: ts))

/-- No part of the tokens closes a bracket that is open before them. -/
def Rises (ts : List Token) : Prop := ∀ depth n, depth ≤ depthAfter depth (ts.take n)

/-- The bracket that is open before the tokens stays open, as none of them closes it. -/
def StaysOpen (ts : List Token) : Prop :=
  ∀ inner c after, ts = inner ++ c :: after → c.Closes → ¬Balanced inner

variable {brackets after : List Bracket} {t : Token} {ts us inner : List Token}

/-- Balanced tokens that match leave the brackets open that are open before them. -/
theorem Balanced.openBehind? (h : Balanced ts)
    (hts : BuildTyping.openBehind? brackets ts = some after) : after = brackets := by
  induction h generalizing brackets after with
  | nil => exact (Option.some.inj hts).symm
  | @plain t ts hopen hclose _ ih =>
    have hkind : t.kind.openBehind? brackets = some brackets := by
      cases hk : t.kind with
      | opening b => exact absurd hk (hopen b)
      | closing b => exact absurd ⟨b, hk⟩ hclose
      | _ => rfl
    rw [openBehind?_cons, hkind] at hts
    exact ih hts
  | @pair o c b inner ts hopen hclose _ _ ihinner ihmore =>
    obtain ⟨b', hc⟩ := hclose
    rw [openBehind?_cons, hopen, TokenKind.openBehind?, Option.bind_some, openBehind?_append,
      Option.bind_eq_some_iff] at hts
    obtain ⟨within, hinner, hts⟩ := hts
    rw [ihinner hinner, openBehind?_cons, hc, TokenKind.openBehind?] at hts
    split at hts
    · exact ihmore hts
    · simp at hts

theorem TokenKind.depthAfter_of_plain {kind : TokenKind} (hopen : ∀ b, kind ≠ .opening b)
    (hclose : ∀ b, kind ≠ .closing b) (depth : Nat) : kind.depthAfter depth = depth := by
  cases kind with
  | opening b => exact absurd rfl (hopen b)
  | closing b => exact absurd rfl (hclose b)
  | _ => rfl

theorem Balanced.depthAfter (h : Balanced ts) (depth : Nat) :
    BuildTyping.depthAfter depth ts = depth := by
  induction h generalizing depth with
  | nil => rfl
  | plain hopen hclose _ ih =>
    rw [depthAfter_cons, TokenKind.depthAfter_of_plain hopen fun b hb => hclose ⟨b, hb⟩, ih]
  | pair hopen hclose _ _ ihinner ihmore =>
    obtain ⟨b, hc⟩ := hclose
    rw [depthAfter_cons, hopen, depthAfter_append, TokenKind.depthAfter, ihinner, depthAfter_cons,
      hc, TokenKind.depthAfter, Nat.add_sub_cancel, ihmore]

namespace Rises

theorem nil : Rises [] := fun depth n => by simp

/-- A token that closes no bracket, before tokens that close none before them. -/
theorem cons (hclose : ¬t.Closes) (h : Rises ts) : Rises (t :: ts) := by
  intro depth n
  cases n with
  | zero => exact Nat.le_refl depth
  | succ n =>
    have hle : depth ≤ t.kind.depthAfter depth := by
      cases hk : t.kind with
      | opening b => exact Nat.le_succ depth
      | closing b => exact absurd ⟨b, hk⟩ hclose
      | _ => exact Nat.le_refl depth
    rw [List.take_succ_cons, depthAfter_cons]
    exact Nat.le_trans hle (h _ n)

/-- A bracket that is closed behind balanced tokens, before tokens that close none before them. -/
theorem pair {o c : Token} {b : Bracket} (hopen : o.kind = .opening b) (hclose : c.Closes)
    (hinner : Balanced inner) (hrises : Rises inner) (h : Rises ts) :
    Rises (o :: (inner ++ c :: ts)) := by
  obtain ⟨b', hc⟩ := hclose
  intro depth n
  cases n with
  | zero => exact Nat.le_refl depth
  | succ n =>
    rw [List.take_succ_cons, depthAfter_cons, hopen, TokenKind.depthAfter, List.take_append,
      depthAfter_append]
    cases hk : n - inner.length with
    | zero =>
      have hle := hrises (depth + 1) n
      rw [List.take_zero, depthAfter_nil]
      omega
    | succ k =>
      rw [List.take_of_length_le (by omega), hinner.depthAfter, List.take_succ_cons,
        depthAfter_cons, hc, TokenKind.depthAfter, Nat.add_sub_cancel]
      exact h depth k

/-- A part of the tokens closes no bracket that is open before them. -/
theorem le (h : Rises (ts ++ us)) (depth : Nat) : depth ≤ depthAfter depth ts := by
  simpa using h depth ts.length

end Rises

theorem Balanced.rises (h : Balanced ts) : Rises ts := by
  induction h with
  | nil => exact .nil
  | plain _ hclose _ ih => exact .cons hclose ih
  | pair hopen hclose inside _ ihinner ihmore => exact .pair hopen hclose inside ihinner ihmore

/-- Tokens that do not close the bracket open before them close none that is open before them. The
induction is on their number, as behind a bracket that they open and close again the rest of them
comes next. -/
theorem StaysOpen.rises (h : StaysOpen ts) : Rises ts := by
  induction hn : ts.length using Nat.strongRecOn generalizing ts with
  | ind n ih =>
    cases ts with
    | nil => exact .nil
    | cons t ts =>
      rw [List.length_cons] at hn
      have hclose : ¬t.Closes := fun ht => h [] t ts rfl ht .nil
      by_cases hplain : ∀ b, t.kind ≠ .opening b
      · have hts : StaysOpen ts := by
          rintro inner c after rfl hc hinner
          exact h (t :: inner) c after rfl hc (.plain hplain hclose hinner)
        exact .cons hclose (ih ts.length (by omega) hts rfl)
      · push Not at hplain
        obtain ⟨b, ht⟩ := hplain
        by_cases hts : StaysOpen ts
        · exact .cons hclose (ih ts.length (by omega) hts rfl)
        · simp only [StaysOpen, not_forall, not_not] at hts
          obtain ⟨inner, c, after, rfl, hc, hinner⟩ := hts
          have hafter : StaysOpen after := by
            rintro inner' c' after' rfl hc' hinner'
            refine h (t :: (inner ++ c :: inner')) c' after' (by simp) hc' ?_
            exact .pair ht hc hinner hinner'
          refine .pair ht hc hinner hinner.rises (ih after.length ?_ hafter rfl)
          simp only [List.length_append, List.length_cons] at hn
          omega

end BuildTyping
