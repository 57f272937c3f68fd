import BuildTyping.Proofs.Grammar.Ensures

/-!
# Parses that can not be told apart

What a parse does depends on the parses of its parts only where these are used. Two parses are the
same below a number of moves if they end alike from every reader with fewer moves left. Each
primitive and each loop carries this from the parts to the whole, and with it how far the reader
moves.
-/

namespace BuildTyping.Parse

open Reader

variable {α β : Type} {n : Nat} {r : Reader}

/-- Any number of tokens. -/
def Freely : List Token → α → Reader → Prop := fun _ _ _ => True

/-- At least one token. -/
def Onwards : List Token → α → Reader → Prop := fun ts _ _ => ts ≠ []

/-- At least one token unless the turn is the last and gives nothing. -/
def InTurn : List Token → Option α → Reader → Prop := fun ts o _ => o.isSome = true → ts ≠ []

/-- Both parses end alike from `r`, and past tokens as `Q` says. -/
def Same (Q : List Token → α → Reader → Prop) (x y : Parse α) (r : Reader) : Prop :=
  r.Ended → x r = y r ∧ r.Lands Q (x r)

def SameBelow (n : Nat) (Q : List Token → α → Reader → Prop) (x y : Parse α) : Prop :=
  ∀ r, r.remaining < n → Same Q x y r

section

variable {P Q : List Token → α → Reader → Prop} {R : List Token → β → Reader → Prop}
  {x y : Parse α} {f g : α → Parse β}

namespace Same

theorem of_ensures (h : Ensures x r Q) : Same Q x x r := fun hr => ⟨rfl, h hr⟩

theorem ensures (h : Same Q x y r) : Ensures x r Q := fun hr => (h hr).2

theorem mono (h : Same P x y r) (hPQ : ∀ ts a r', P ts a r' → Q ts a r') : Same Q x y r :=
  fun hr => ⟨(h hr).1, h.ensures.mono (fun ts a r' _ => hPQ ts a r') hr⟩

/-- The same parse goes on from the same reader. -/
theorem bind (h : Same P x y r) (hfg : ∀ ts a mid, r.Passes ts mid → P ts a mid →
    Same (fun us => R (ts ++ us)) (f a) (g a) mid) : Same R (x >>= f) (y >>= g) r := by
  intro hr
  obtain ⟨heq, hlands⟩ := h hr
  refine ⟨?_, h.ensures.bind (fun ts a mid hp ha => (hfg ts a mid hp ha).ensures) hr⟩
  simp only [Bind.bind, EStateM.bind, ← heq]
  cases hx : x r with
  | ok a mid =>
    rw [hx] at hlands
    obtain ⟨ts, hp, ha⟩ := hlands
    exact (hfg ts a mid hp ha (hp.ended hr)).1
  | error fault mid => rfl

theorem get {f g : Reader → Parse β} (h : Same R (f r) (g r) r) :
    Same R (get >>= f) (get >>= g) r := h

theorem kind {f g : TokenKind → Parse β} (h : Same R (f r.current.kind) (g r.current.kind) r) :
    Same R (kind >>= f) (kind >>= g) r := h

theorem map {f : α → β} (h : Same (fun ts a => R ts (f a)) x y r) :
    Same R (f <$> x) (f <$> y) r := by
  rw [map_eq_pure_bind, map_eq_pure_bind]
  exact h.bind fun ts a mid _ ha => of_ensures (.pure (by simpa using ha))

/-- Moving on leaves one move less. -/
theorem advance {f g : Token → Parse β} (hk : r.current.kind ≠ .endOfSource)
    (hn : r.remaining ≤ n) (hfg : ∀ t, SameBelow n Freely (f t) (g t)) :
    Same Onwards (advance >>= f) (advance >>= g) r := by
  intro hr
  have hp := passes_next hr hk
  have hlt : r.next.remaining < n := by
    have hremaining := hp.remaining
    simp only [List.length_singleton] at hremaining
    omega
  have hnext := hfg r.current r.next hlt
  refine ⟨(hnext (hp.ended hr)).1, Ensures.advance hk ?_ hr⟩
  exact hnext.ensures.mono fun us b r' _ _ => List.cons_ne_nil _ us

/-- A turn that gives something moves on. -/
theorem inTurn {x y : Parse (Option α)} (h : Same Onwards x y r) : Same InTurn x y r :=
  h.mono fun _ _ _ hts _ => hts

theorem stop : Same InTurn (pure none : Parse (Option α)) (pure none) r :=
  of_ensures (.pure (by simp [InTurn]))

end Same

namespace SameBelow

variable {x' y' : Parse α}

theorem zero (x y : Parse α) : SameBelow 0 Q x y := fun _ h => absurd h (Nat.not_lt_zero _)

theorem of_ensures (h : ∀ r, Ensures x r Q) : SameBelow n Q x x := fun r _ => .of_ensures (h r)

theorem ensures (h : ∀ n, SameBelow n Q x x) (r : Reader) : Ensures x r Q :=
  (h _ r (Nat.lt_succ_self _)).ensures

theorem freely (h : SameBelow n Q x y) : SameBelow n Freely x y :=
  fun r hr => (h r hr).mono fun _ _ _ _ => trivial

/-- A guard that is met makes no difference. -/
theorem guarded (h : ∀ r, r.remaining < n → Ensures x r Q) (y : Parse α) :
    SameBelow n Q (fun r => if r.remaining < n then x r else y r) x := by
  intro r hn hr
  simp only [if_pos hn]
  exact ⟨trivial, h r hn hr⟩

theorem pure (a : α) : SameBelow n Freely (pure a) (pure a) := of_ensures fun _ => .pure trivial

theorem throw (fault : Fault) : SameBelow n Q (throw fault) (throw fault) :=
  of_ensures fun _ => .throw fault

theorem unmet (message : String) : SameBelow n Q (unmet message) (unmet message) :=
  of_ensures fun _ => .unmet message

theorem unexpected (t : Token) : SameBelow n Q (unexpected t) (unexpected t) :=
  of_ensures fun _ => .unexpected t

theorem node (span : Span) (shape : Shape Expr) :
    SameBelow n Freely (node span shape) (node span shape) :=
  of_ensures fun _ => .node trivial

theorem bind (h : SameBelow n P x y) (hfg : ∀ a, SameBelow n Freely (f a) (g a)) :
    SameBelow n Freely (x >>= f) (y >>= g) := by
  intro r hr
  refine (h r hr).bind fun ts a mid hp _ => hfg a mid ?_
  have hremaining := hp.remaining
  omega

theorem onwards (h : SameBelow n Onwards x y) (hfg : ∀ a, SameBelow n Freely (f a) (g a)) :
    SameBelow n Onwards (x >>= f) (y >>= g) := by
  intro r hr
  refine (h r hr).bind fun ts a mid hp hts => (hfg a mid ?_).mono fun us b r' _ => ?_
  · have hremaining := hp.remaining
    omega
  · exact List.append_ne_nil_of_left_ne_nil hts us

theorem map {f : α → β} (h : SameBelow n (fun ts a => R ts (f a)) x y) :
    SameBelow n R (f <$> x) (f <$> y) := fun r hr => (h r hr).map

theorem ite {c : Prop} [Decidable c] (h : SameBelow n Q x y) (h' : SameBelow n Q x' y') :
    SameBelow n Q (if c then x else x') (if c then y else y') := by
  split
  · exact h
  · exact h'

theorem get {f g : Reader → Parse β} (hfg : ∀ s, SameBelow n R (f s) (g s)) :
    SameBelow n R (get >>= f) (get >>= g) := fun r hr => hfg r r hr

theorem kind {f g : TokenKind → Parse β} (hfg : ∀ k, SameBelow n R (f k) (g k)) :
    SameBelow n R (kind >>= f) (kind >>= g) := fun r hr => hfg r.current.kind r hr

theorem spanFrom {start : Position} {f g : Span → Parse β}
    (hfg : ∀ span, SameBelow n R (f span) (g span)) :
    SameBelow n R (spanFrom start >>= f) (spanFrom start >>= g) :=
  fun r hr => hfg (r.spanFrom start) r hr

/-- At the last mark of the end a reader stays where it is. -/
theorem advance_self : SameBelow n Freely advance advance := by
  refine of_ensures fun r hr => ?_
  by_cases hk : r.upcoming = []
  · have hstay : r.next = r := by
      unfold next
      split
      · rfl
      · rename_i t ts hts
        simp [hk] at hts
    refine ⟨[], ?_, trivial⟩
    rw [hstay]
    exact .refl r
  · exact ⟨[r.current], ⟨by rw [ahead_next rfl hk]; rfl, consumed_next rfl hk⟩, trivial⟩

theorem advance {f g : Token → Parse β} (hfg : ∀ t, SameBelow n Freely (f t) (g t)) :
    SameBelow n Freely (advance >>= f) (advance >>= g) := advance_self.bind hfg

theorem expect {expected : TokenKind} {f g : Token → Parse β}
    (hfg : ∀ t, SameBelow n Freely (f t) (g t)) :
    SameBelow n Freely (expect expected >>= f) (expect expected >>= g) :=
  bind (get fun _ => ite advance_self (throw _)) hfg

theorem expectFor {expected : TokenKind} {message : String} {f g : Token → Parse β}
    (hfg : ∀ t, SameBelow n Freely (f t) (g t)) :
    SameBelow n Freely (expectFor expected message >>= f) (expectFor expected message >>= g) :=
  bind (kind fun _ => ite advance_self (unmet _)) hfg

theorem some (h : SameBelow n Onwards x y) : SameBelow n InTurn (some <$> x) (some <$> y) :=
  map fun r hr => (h r hr).mono fun _ _ _ hts _ => hts

theorem stop : SameBelow n InTurn (Pure.pure none : Parse (Option α)) (Pure.pure none) :=
  fun _ _ => .stop

theorem many {item item' : Parse (Option α)} {Q : List Token → Option α → Reader → Prop}
    (h : SameBelow n Q item item') : SameBelow n Freely (many item) (many item') := by
  intro r hn
  induction hm : r.remaining using Nat.strongRecOn generalizing r with
  | ind m ih =>
    subst hm
    intro hr
    obtain ⟨heq, hlands⟩ := h r hn hr
    rw [Parse.many, Parse.many, ← heq]
    cases hi : item r with
    | error fault r' =>
      rw [hi] at hlands
      exact ⟨rfl, hlands⟩
    | ok o r' =>
      rw [hi] at hlands
      obtain ⟨ts, hp, -⟩ := hlands
      cases o with
      | none => exact ⟨rfl, ts, hp, trivial⟩
      | some a =>
        by_cases hlt : r'.remaining < r.remaining
        · obtain ⟨heq', hlands'⟩ := ih _ hlt r' (by omega) rfl (hp.ended hr)
          simp only [if_pos hlt, ← heq']
          cases hm : Parse.many item r' with
          | error fault r'' =>
            rw [hm] at hlands'
            exact ⟨trivial, .after hp hlands'⟩
          | ok as r'' =>
            rw [hm] at hlands'
            obtain ⟨us, hp', -⟩ := hlands'
            exact ⟨trivial, ts ++ us, hp.trans hp', trivial⟩
        · simp only [if_neg hlt]
          exact ⟨trivial, ts, hp, trivial⟩

theorem iterate {turn turn' : α → Parse (Option α)}
    {Q : List Token → Option α → Reader → Prop}
    (h : ∀ a, SameBelow n Q (turn a) (turn' a)) (a : α) :
    SameBelow n Freely (iterate turn a) (iterate turn' a) := by
  intro r hn
  induction hm : r.remaining using Nat.strongRecOn generalizing r a with
  | ind m ih =>
    subst hm
    intro hr
    obtain ⟨heq, hlands⟩ := h a r hn hr
    rw [Parse.iterate, Parse.iterate, ← heq]
    cases ht : turn a r with
    | error fault r' =>
      rw [ht] at hlands
      exact ⟨rfl, hlands⟩
    | ok o r' =>
      rw [ht] at hlands
      obtain ⟨ts, hp, -⟩ := hlands
      cases o with
      | none => exact ⟨rfl, ts, hp, trivial⟩
      | some b =>
        by_cases hlt : r'.remaining < r.remaining
        · obtain ⟨heq', hlands'⟩ := ih _ hlt b r' (by omega) rfl (hp.ended hr)
          simp only [if_pos hlt]
          exact ⟨heq', .after hp hlands'⟩
        · simp only [if_neg hlt]
          exact ⟨trivial, ts, hp, trivial⟩

end SameBelow

end

end BuildTyping.Parse
