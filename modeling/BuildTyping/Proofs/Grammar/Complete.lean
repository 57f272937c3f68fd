import BuildTyping.Proofs.Grammar.Gives
import BuildTyping.Proofs.Grammar.Level

/-!
# Reading words back

An expression is complete when it is read back from its words, up to ids and spans, whatever word
follows that does not reach into it. Its parts are read by a reader of shorter texts.
-/

namespace BuildTyping

namespace Parse

variable {sub : Precedence → Parse Expr} {n : Nat} {least p : Precedence} {r : Reader}
variable {e : Expr} {w : Word} {ws rest : List Word}

/-- On fewer than `n` words the parts are read by the standard grammar. -/
def Knows (sub : Precedence → Parse Expr) (n : Nat) : Prop :=
  ∀ p r, r.words.length < n → sub p r = expression .standard p r

/-- The reader of parts within `expression` knows all that is shorter. -/
theorem exists_knows (r : Reader) : ∃ sub, Knows sub r.words.length ∧
    ∀ least, expression .standard least r = expressionOf .standard sub least r := by
  refine ⟨fun p r' => if r'.remaining < r.remaining then expression .standard p r'
    else expressionOf .standard (fun _ => unmet "expected an expression") p r', ?_, ?_⟩
  · intro p r' h
    rw [Reader.words_length, Reader.words_length] at h
    simp only [show r'.remaining < r.remaining by omega, if_true]
  · intro least
    rw [expression]

/-- After the words of `e` the reading goes on with `e` as what has been read so far. -/
def Leads (sub : Precedence → Parse Expr) (least : Precedence) (r : Reader) (e : Expr)
    (rest : List Word) : Prop :=
  ∃ e' r', expressionOf .standard sub least r = iterate (extend .standard sub least) e' r' ∧
    e'.bare = e.bare ∧ r'.words = rest

namespace Leads

theorem start {rule : StartRule} (hr : r.words = w :: ws)
    (hs : Grammar.standard.starts w.kind = some rule)
    (h : Gives (startWith .standard sub rule) r (fun e' => e'.bare = e.bare) rest) :
    Leads sub least r e rest := by
  obtain ⟨e', r', hrule, hbare, hrest⟩ := h
  refine ⟨e', r', ?_, hbare, hrest⟩
  rw [expressionOf, kind_bind_run, Reader.current_kind hr]
  simp only [hs]
  rw [bind_of_ok hrule]

/-- A word that binds more tightly than `least` goes on with what has been read. -/
theorem extend {left : Expr} {rule : ContinueRule} (h : Leads sub least r left (w :: ws))
    (hc : Grammar.standard.continues w.kind = some (p, rule)) (hp : least < p)
    (hrule : ∀ left' r', left'.bare = left.bare → r'.words = w :: ws →
      Gives (continueWith .standard sub left' p rule) r' (fun e' => e'.bare = e.bare) rest)
    (hlt : rest.length < (w :: ws).length) : Leads sub least r e rest := by
  obtain ⟨left', r', hleft, hbare, hr'⟩ := h
  obtain ⟨e', r'', he, hbare', hrest⟩ := hrule left' r' hbare hr'
  refine ⟨e', r'', ?_, hbare', hrest⟩
  have hturn : Parse.extend .standard sub least left' r' = .ok (some e') r'' := by
    rw [Parse.extend, kind_bind_run, Reader.current_kind hr']
    simp only [hc, hp, if_true]
    exact map_ok.2 ⟨e', he, rfl⟩
  rw [hleft, iterate_more hturn (by rw [hr', hrest]; exact hlt)]

/-- A word that binds no more tightly than `least` ends the reading. -/
theorem gives (h : Leads sub least r e (w :: ws))
    (hw : Grammar.standard.precedence w.kind ≤ least) :
    Gives (expressionOf .standard sub least) r (fun e' => e'.bare = e.bare) (w :: ws) := by
  obtain ⟨e', r', he, hbare, hr'⟩ := h
  refine ⟨e', r', ?_, hbare, hr'⟩
  rw [he]
  apply iterate_stop
  rw [Parse.extend, kind_bind_run, Reader.current_kind hr']
  unfold Grammar.precedence at hw
  cases hc : Grammar.standard.continues w.kind with
  | none => rfl
  | some found =>
    obtain ⟨p, rule⟩ := found
    rw [hc] at hw
    simp only [Precedence.not_lt.2 hw, if_false]
    rfl

end Leads

end Parse

open Parse

/-- The expression is read back from its words before any word that it does not reach. -/
def Expr.Complete (e : Expr) : Prop :=
  ∀ ⦃sub least r w ws⦄, Knows sub r.words.length → r.words = e.words ++ w :: ws →
    least.Admits e.level → Grammar.standard.precedence w.kind ≤ e.level.reach →
    Leads sub least r e (w :: ws)

namespace Expr

theorem lowest_lt_level (e : Expr) : .lowest < e.level := by
  obtain ⟨id, span, shape⟩ := e
  cases shape with
  | binary op left right => cases op <;> exact Nat.succ_pos _
  | unary op operand => cases op <;> exact Nat.succ_pos _
  | _ => exact Nat.succ_pos _

theorem phrase_level (e : Expr) : e.phrase.level = e.level := by rw [phrase_eq, level]

theorem atLeast_eq (e : Expr) (p : Precedence) :
    e.phrase.atLeast p = if p ≤ e.level then e.words else enclosed .round e.words := by
  rw [Phrase.atLeast, phrase_level, words]

theorem above_eq (e : Expr) (p : Precedence) :
    e.phrase.above p = if p < e.level then e.words else enclosed .round e.words := by
  rw [Phrase.above, phrase_level, words]

end Expr

namespace Expr.Complete

variable {sub : Precedence → Parse Expr} {n : Nat} {least : Precedence} {r : Reader}
variable {e : Expr} {w : Word} {ws : List Word}

/-- A part that nothing reaches into. -/
theorem gives (he : e.Complete) (hsub : Knows sub n) (hn : r.words.length < n)
    (hr : r.words = e.words ++ w :: ws) (hlevel : least.Admits e.level)
    (hreach : Grammar.standard.precedence w.kind ≤ e.level.reach)
    (hw : Grammar.standard.precedence w.kind ≤ least) :
    Gives (sub least) r (fun e' => e'.bare = e.bare) (w :: ws) := by
  obtain ⟨sub', hsub', heq⟩ := exists_knows r
  obtain ⟨e', r', he', h⟩ := (he hsub' hr hlevel hreach).gives hw
  exact ⟨e', r', by rw [hsub _ _ hn, heq, he'], h⟩

/-- A part that ends before a word that continues nothing. -/
theorem gives_lowest (he : e.Complete) (hsub : Knows sub n) (hn : r.words.length < n)
    (hr : r.words = e.words ++ w :: ws)
    (hw : Grammar.standard.precedence w.kind = .lowest) :
    Gives (sub .lowest) r (fun e' => e'.bare = e.bare) (w :: ws) := by
  apply he.gives hsub hn hr (.inl e.lowest_lt_level)
  · rw [hw]
    exact Precedence.lowest_le _
  · rw [hw]
    exact Precedence.lowest_le _

end Expr.Complete

end BuildTyping
