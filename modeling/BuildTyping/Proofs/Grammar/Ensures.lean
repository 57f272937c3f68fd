import BuildTyping.Grammar.Program
import BuildTyping.Proofs.Grammar.Run
import BuildTyping.Proofs.Grammar.Tree

/-!
# What a parse ensures

A parse goes past tokens, whether it succeeds or not, and never past the mark of the end. What a
success ensures of these tokens, of its result and of the reader behind them follows the text of
the parse: one rule for each primitive, an invariant for each loop, and an induction on what is
left for expressions.
-/

namespace BuildTyping

namespace Reader

theorem Passes.remaining {r r' : Reader} {ts : List Token} (h : r.Passes ts r') :
    r.remaining = ts.length + r'.remaining := by
  have hl := congrArg List.length h.ahead
  simp only [Reader.ahead, List.length_append, List.length_cons] at hl
  rw [r.remaining_eq, r'.remaining_eq]
  omega

theorem Passes.unique {r r' : Reader} {ts us : List Token} (h : r.Passes ts r')
    (h' : r.Passes us r') : ts = us :=
  List.append_cancel_right (h.ahead.symm.trans h'.ahead)

variable {α : Type}

/-- A parse that ends so went past tokens, and these, the result and the reader behind them have
the property if it succeeded. -/
def Lands (r : Reader) (Q : List Token → α → Reader → Prop) : EStateM.Result Fault Reader α → Prop
  | .ok a r' => ∃ ts, r.Passes ts r' ∧ Q ts a r'
  | .error _ r' => ∃ ts, r.Passes ts r'

theorem Lands.after {r mid : Reader} {ts : List Token} {Q : List Token → α → Reader → Prop}
    {result : EStateM.Result Fault Reader α} (hp : r.Passes ts mid)
    (h : mid.Lands (fun us => Q (ts ++ us)) result) : r.Lands Q result := by
  cases result with
  | ok a r' =>
    obtain ⟨us, hp', ha⟩ := h
    exact ⟨ts ++ us, hp.trans hp', ha⟩
  | error fault r' =>
    obtain ⟨us, hp'⟩ := h
    exact ⟨ts ++ us, hp.trans hp'⟩

end Reader

namespace Parse

open Reader

variable {α β : Type}

/-- The parse goes past tokens of `r` only, and a success has the property. -/
def Ensures (x : Parse α) (r : Reader) (Q : List Token → α → Reader → Prop) : Prop :=
  r.Ended → r.Lands Q (x r)

namespace Ensures

variable {r : Reader} {x : Parse α} {f : α → Parse β} {P Q : List Token → α → Reader → Prop}
  {R : List Token → β → Reader → Prop}

theorem of_ok {a : α} {r' : Reader} (h : Ensures x r Q) (hr : r.Ended) (hx : x r = .ok a r') :
    ∃ ts, r.Passes ts r' ∧ Q ts a r' := by
  have h' := h hr
  rwa [hx] at h'

theorem pure {a : α} (h : Q [] a r) : Ensures (pure a) r Q := fun _ => ⟨[], .refl r, h⟩

theorem throw (fault : Fault) : Ensures (throw fault) r Q := fun _ => ⟨[], .refl r⟩

theorem unmet (message : String) : Ensures (unmet message) r Q := fun _ => ⟨[], .refl r⟩

theorem unexpected (t : Token) : Ensures (unexpected t) r Q := fun _ => ⟨[], .refl r⟩

theorem mono (h : Ensures x r P)
    (hPQ : ∀ ts a r', r.Passes ts r' → P ts a r' → Q ts a r') : Ensures x r Q := by
  intro hr
  have hx := h hr
  cases hrun : x r with
  | ok a r' =>
    rw [hrun] at hx
    obtain ⟨ts, hp, ha⟩ := hx
    exact ⟨ts, hp, hPQ ts a r' hp ha⟩
  | error fault r' =>
    rw [hrun] at hx
    exact hx

/-- A reader is behind the same tokens whatever is ensured of them. -/
theorem and (h : Ensures x r P) (h' : Ensures x r Q) :
    Ensures x r fun ts a r' => P ts a r' ∧ Q ts a r' := by
  intro hr
  have hx := h hr
  have hx' := h' hr
  cases hrun : x r with
  | ok a r' =>
    rw [hrun] at hx hx'
    obtain ⟨ts, hp, ha⟩ := hx
    obtain ⟨us, hp', ha'⟩ := hx'
    obtain rfl := hp.unique hp'
    exact ⟨ts, hp, ha, ha'⟩
  | error fault r' =>
    rw [hrun] at hx
    exact hx

/-- The rest of a sequence starts behind the tokens of its first part. -/
theorem bind (h : Ensures x r P) (hf : ∀ ts a mid, r.Passes ts mid → P ts a mid →
    Ensures (f a) mid fun us => R (ts ++ us)) : Ensures (x >>= f) r R := by
  intro hr
  have hx := h hr
  cases hrun : x r with
  | ok a mid =>
    rw [hrun] at hx
    obtain ⟨ts, hp, ha⟩ := hx
    rw [bind_of_ok hrun]
    exact .after hp (hf ts a mid hp ha (hp.ended hr))
  | error fault mid =>
    rw [hrun] at hx
    simp only [Bind.bind, EStateM.bind, hrun]
    exact hx

theorem map {f : α → β} (h : Ensures x r fun ts a => R ts (f a)) : Ensures (f <$> x) r R := by
  rw [map_eq_pure_bind]
  exact bind h fun ts a mid _ ha => pure (by simpa using ha)

theorem get {f : Reader → Parse β} (h : Ensures (f r) r R) : Ensures (get >>= f) r R := h

theorem kind {f : TokenKind → Parse β} (h : Ensures (f r.current.kind) r R) :
    Ensures (kind >>= f) r R := h

theorem spanFrom {start : Position} {f : Span → Parse β}
    (h : Ensures (f (r.spanFrom start)) r R) : Ensures (spanFrom start >>= f) r R := h

theorem node {span : Span} {shape : Shape Expr} {Q : List Token → Expr → Reader → Prop}
    (h : Q [] ⟨r.count, span, shape⟩ { r with count := r.count + 1 }) :
    Ensures (node span shape) r Q := fun _ => ⟨[], ⟨rfl, rfl⟩, h⟩

/-- The mark of the end is not gone past. -/
theorem advance {f : Token → Parse β} (hk : r.current.kind ≠ .endOfSource)
    (h : Ensures (f r.current) r.next fun us => R (r.current :: us)) :
    Ensures (advance >>= f) r R := by
  intro hr
  have hp := passes_next hr hk
  exact .after hp (h (hp.ended hr))

theorem expect {expected : TokenKind} {f : Token → Parse β} (hk : expected ≠ .endOfSource)
    (h : r.current.kind = expected →
      Ensures (f r.current) r.next fun us => R (r.current :: us)) :
    Ensures (expect expected >>= f) r R := by
  by_cases hc : r.current.kind = expected
  · intro hr
    rw [bind_of_ok (expect_ok.2 ⟨hc, rfl, rfl⟩)]
    exact advance (hc ▸ hk) (h hc) hr
  · intro _
    simp only [Bind.bind, EStateM.bind, expect_run, if_neg hc]
    exact ⟨[], .refl r⟩

theorem expectFor {expected : TokenKind} {message : String} {f : Token → Parse β}
    (hk : expected ≠ .endOfSource)
    (h : r.current.kind = expected →
      Ensures (f r.current) r.next fun us => R (r.current :: us)) :
    Ensures (expectFor expected message >>= f) r R := by
  by_cases hc : r.current.kind = expected
  · intro hr
    rw [bind_of_ok (expectFor_ok.2 ⟨hc, rfl, rfl⟩)]
    exact advance (hc ▸ hk) (h hc) hr
  · intro _
    simp only [Bind.bind, EStateM.bind, expectFor_run, if_neg hc]
    exact ⟨[], .refl r⟩

/-- A loop ensures what holds of no turns and, before a turn, whenever it holds after it. -/
theorem many {item : Parse (Option α)} {P : List Token → List α → Prop} (nil : P [] [])
    (turn : ∀ us mid, r.Passes us mid → Ensures item mid fun ts o _ =>
      o.elim (P ts []) fun a => ∀ vs as, P vs as → P (ts ++ vs) (a :: as)) :
    Ensures (many item) r fun ts as _ => P ts as := by
  intro hr
  suffices h : ∀ us mid, r.Passes us mid →
      mid.Lands (fun ts as _ => P ts as) (Parse.many item mid) from h [] r (.refl r)
  intro us mid hmid
  have hturn := fun us mid (h : r.Passes us mid) => turn us mid h (h.ended hr)
  fun_induction Parse.many item mid generalizing us with
  | case1 mid fault r' hi | case2 mid r' hi =>
    have hx := hturn us mid hmid
    rw [hi] at hx
    exact hx
  | case3 mid a r' hi hlt fault r'' hm ih =>
    have hx := hturn us mid hmid
    rw [hi] at hx
    obtain ⟨ts, hp, -⟩ := hx
    have hx' := ih _ (hmid.trans hp)
    rw [hm] at hx'
    obtain ⟨vs, hp'⟩ := hx'
    exact ⟨ts ++ vs, hp.trans hp'⟩
  | case4 mid a r' hi hlt as r'' hm ih =>
    have hx := hturn us mid hmid
    rw [hi] at hx
    obtain ⟨ts, hp, ha⟩ := hx
    have hx' := ih _ (hmid.trans hp)
    rw [hm] at hx'
    obtain ⟨vs, hp', has⟩ := hx'
    exact ⟨ts ++ vs, hp.trans hp', ha vs as has⟩
  | case5 mid a r' hi hlt =>
    have hx := hturn us mid hmid
    rw [hi] at hx
    obtain ⟨ts, hp, ha⟩ := hx
    exact ⟨ts, hp, by simpa using ha [] [] nil⟩

/-- A loop keeps what each of its turns keeps, and ends with a turn that gives nothing or reads
nothing. -/
theorem iterate {turn : α → Parse (Option α)} {a : α} {I Q : List Token → α → Reader → Prop}
    (first : I [] a r)
    (next : ∀ ts a mid, r.Passes ts mid → I ts a mid → Ensures (turn a) mid fun us o r' =>
      o.elim (Q (ts ++ us) a r') fun b => I (ts ++ us) b r' ∧ (us = [] → Q (ts ++ us) b r')) :
    Ensures (iterate turn a) r Q := by
  intro hr
  suffices h : ∀ ts mid, r.Passes ts mid → I ts a mid → r.Lands Q (Parse.iterate turn a mid) from
    h [] r (.refl r) first
  clear first
  intro ts mid hmid hI
  have hturn := fun ts a mid (h : r.Passes ts mid) (hI : I ts a mid) =>
    next ts a mid h hI (h.ended hr)
  fun_induction Parse.iterate turn a mid generalizing ts with
  | case1 a mid fault r' ht =>
    have hx := hturn ts a mid hmid hI
    rw [ht] at hx
    obtain ⟨us, hp⟩ := hx
    exact ⟨ts ++ us, hmid.trans hp⟩
  | case2 a mid r' ht =>
    have hx := hturn ts a mid hmid hI
    rw [ht] at hx
    obtain ⟨us, hp, ha⟩ := hx
    exact ⟨ts ++ us, hmid.trans hp, ha⟩
  | case3 a mid b r' ht hlt ih =>
    have hx := hturn ts a mid hmid hI
    rw [ht] at hx
    obtain ⟨us, hp, hb, -⟩ := hx
    exact ih (ts ++ us) (hmid.trans hp) hb
  | case4 a mid b r' ht hlt =>
    have hx := hturn ts a mid hmid hI
    rw [ht] at hx
    obtain ⟨us, hp, -, hb⟩ := hx
    have hremaining := hp.remaining
    have hus : us = [] := List.length_eq_zero_iff.1 (by omega)
    exact ⟨ts ++ us, hmid.trans hp, hb hus⟩

end Ensures

/-- What the reader of an expression ensures whenever the readers of its parts do, every
expression ensures. -/
theorem ensures_expression {g : Grammar} {I : Reader → Prop}
    {Q : Precedence → List Token → Expr → Reader → Prop}
    (step : ∀ sub, (∀ p r, I r → Ensures (sub p) r (Q p)) →
      ∀ p r, I r → Ensures (expressionOf g sub p) r (Q p)) (p : Precedence) (r : Reader)
    (hI : I r) : Ensures (expression g p) r (Q p) := by
  induction hn : r.remaining using Nat.strongRecOn generalizing r p with
  | ind n ih =>
    subst hn
    unfold Ensures
    rw [expression]
    refine step _ (fun p r' hI' => ?_) p r hI
    intro hr'
    simp only
    split
    · rename_i hlt
      exact ih _ hlt p r' hI' rfl hr'
    · exact step _ (fun _ _ _ => .unmet _) p r' hI' hr'

end Parse

end BuildTyping
