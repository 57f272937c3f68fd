import BuildTyping.Proofs.Grammar.Complete

/-!
# What is in brackets

The rules that read brackets read back the items between them, whatever the items are, when each
item is read back before a word that continues nothing.
-/

namespace BuildTyping

namespace Parse

variable {sub : Precedence → Parse Expr} {r : Reader} {P : Expr → Prop} {p : Precedence}
variable {w u : Word} {ws us rest : List Word} {e : Expr}

/-- At the words of an expression the current kind is one that starts it. -/
theorem Gives.opens {β : Type} {f : TokenKind → Parse β} {Q : β → Prop} (ho : Opens us)
    (hr : r.words = us ++ ws)
    (h : ∀ kind, (Grammar.standard.starts kind).isSome = true → Gives (f kind) r Q rest) :
    Gives (Parse.kind >>= f) r Q rest := by
  obtain ⟨u, vs, rfl, hs, -⟩ := ho
  exact .kind hr (h u.kind hs)

theorem commaList_gives_one (h : Gives (sub p) r P (w :: ws)) (hw : w.kind ≠ .sign .comma) :
    Gives (commaList .standard sub p) r P (w :: ws) := by
  exact h.bind fun first r' hP hr' => .kind hr' (.ite_neg hw (.pure hr' hP))

theorem close_gives {b : Bracket} {start : Position} {shape : Shape Expr}
    (hr : r.words = .closing b :: w :: ws) (h : ∀ id span, P ⟨id, span, shape⟩) :
    Gives (do
      let _ ← expect (.closing b)
      node (← spanFrom start) shape) r P (w :: ws) :=
  Gives.expect hr rfl (by simp) fun _ _ _ hr' =>
    Gives.spanFrom fun _ => Gives.node hr' fun _ => h _ _

/-- What is in round brackets keeps its shape. -/
theorem group_gives (ho : Opens us) (hr : r.words = .opening .round :: (us ++ rest))
    (h : ∀ r' : Reader, r'.words = us ++ rest →
      Gives (exprList .standard sub) r' (fun e' => e'.bare = e.bare) (.closing .round :: w :: ws)) :
    Gives (group .standard sub) r (fun e' => e'.bare = e.bare) (w :: ws) := by
  refine Gives.advance hr (by simp [ho.ne_nil]) fun t r1 _ hr1 => ?_
  apply Gives.opens ho hr1
  intro kind hs
  apply Gives.ite_neg (ne_of_starts hs rfl)
  apply Gives.bind (h r1 hr1)
  intro inner r2 hbare hr2
  apply Gives.expect hr2 rfl (by simp)
  intro _ r3 _ hr3
  apply Gives.spanFrom
  intro span
  apply Gives.pure hr3
  rw [← hbare]
  exact Expr.bare_congr rfl

section Items

variable {α β γ : Type} {b : Bracket} {item : Parse α} {collect : List α → Shape Expr}
variable {comprehend : α → List (Clause Expr) → Shape Expr} {f : α → γ} {g : β → γ}
variable {text : β → List Word}

/-- The words after an item: the other items, each after a comma, and then `rest`. -/
def commas (text : β → List Word) (items : List β) (rest : List Word) : List Word :=
  items.flatMap (fun a => .sign .comma :: text a) ++ rest

theorem separated_append (text : β → List Word) (a : β) (items : List β) (rest : List Word) :
    separated ((a :: items).map text) ++ rest = text a ++ commas text items rest := by
  simp [separated, commas, List.flatMap_map]

theorem commas_cons (text : β → List Word) (a : β) (items : List β) (rest : List Word) :
    commas text (a :: items) rest = .sign .comma :: (text a ++ commas text items rest) := by
  simp [commas]

/-- After an item stands a comma or the end of the items. -/
theorem exists_commas (text : β → List Word) (items : List β) (z : Word) (rest : List Word) :
    ∃ u us, commas text items (z :: rest) = u :: us ∧ (u = .sign .comma ∨ u = z) := by
  cases items with
  | nil => exact ⟨z, rest, rfl, .inr rfl⟩
  | cons a items => exact ⟨_, _, commas_cons .., .inl rfl⟩

/-- A loop over items, each after a comma. What ends it may begin with a comma too. -/
theorem commas_gives {next : Parse (Option α)} {items : List β} {stop : List Word}
    (hr : r.words = commas text items stop)
    (hstop : ∀ r' : Reader, r'.words = stop → Gives (do
      if (← kind) = .sign .comma then
        let _ ← advance
        next
      else return none) r' (fun o => o = none) rest)
    (hne : stop ≠ [])
    (hnext : ∀ a ∈ items, ∀ items' (r' : Reader), r'.words = text a ++ commas text items' stop →
      r'.words.length < r.words.length →
      Gives next r' (fun o => ∃ x, o = some x ∧ f x = g a) (commas text items' stop)) :
    Gives (many do
      if (← kind) = .sign .comma then
        let _ ← advance
        next
      else return none) r (fun as => as.map f = items.map g) rest := by
  refine Gives.many (t := fun items => commas text items stop) hstop ?_ ?_ hr
  · intro a ha items' r' hr' hle
    rw [← hr, ← hr'] at hle
    rw [commas_cons] at hr'
    apply Gives.kind hr'
    apply Gives.ite_pos rfl
    refine Gives.advance hr' (by simp [commas, hne]) fun t r1 _ hr1 => ?_
    apply hnext a ha items' r1 hr1
    simp only [hr', List.length_cons] at hle
    simp only [hr1]
    omega
  · intro a ha items'
    simp only [commas_cons, List.length_append, List.length_cons]
    omega

/-- Items between commas, or nothing. -/
theorem bracketed_gives {items : List β}
    (hr : r.words = enclosed b (separated (items.map text)) ++ w :: ws)
    (hopens : ∀ a ∈ items, Opens (text a))
    (hitem : ∀ a ∈ items, ∀ (r' : Reader) u us, r'.words = text a ++ u :: us →
      r'.words.length < r.words.length → Grammar.standard.precedence u.kind = .lowest →
      Gives item r' (fun x => f x = g a) (u :: us))
    (h : ∀ id span as, as.map f = items.map g → P ⟨id, span, collect as⟩) :
    Gives (bracketed .standard sub b item collect comprehend) r P (w :: ws) := by
  rw [enclosed, List.cons_append, List.append_assoc] at hr
  cases items with
  | nil =>
    apply Gives.advance hr (by simp)
    intro t r1 _ hr1
    apply Gives.kind hr1
    apply Gives.ite_pos rfl
    exact close_gives hr1 fun id span => h id span [] rfl
  | cons a items =>
    rw [separated_append] at hr
    change _ = _ :: (text a ++ commas text items (.closing b :: w :: ws)) at hr
    have after (items : List β) : ∃ v vs, commas text items (.closing b :: w :: ws) = v :: vs ∧
        Grammar.standard.precedence v.kind = .lowest ∧ v.kind ≠ .keyword .for_ := by
      obtain ⟨v, vs, hv, rfl | rfl⟩ := exists_commas text items (.closing b) (w :: ws)
      · exact ⟨_, vs, hv, rfl, by simp [Word.sign]⟩
      · exact ⟨_, vs, hv, rfl, by simp [Word.closing]⟩
    obtain ⟨v, vs, hv, hlowest, hfor⟩ := after items
    have hlen := congrArg List.length hr
    rw [hv] at hr
    apply Gives.advance hr (by simp)
    intro t r1 _ hr1
    apply Gives.opens (hopens a (by simp)) hr1
    intro kind hs
    apply Gives.ite_neg (ne_of_starts hs rfl)
    apply Gives.bind (hitem a (by simp) r1 v vs hr1 (by simp [hr1, hr]) hlowest)
    intro first r2 hfirst hr2
    apply Gives.kind hr2
    apply Gives.ite_neg hfor
    rw [← hv] at hr2
    refine (commas_gives (f := f) (g := g) hr2 ?_ (by simp) ?_).bind fun others r3 hothers hr3 =>
      close_gives hr3 fun id span => h id span _ (by simp [hfirst, hothers])
    · intro r' hr'
      exact .kind hr' (.ite_neg (by simp [Word.closing]) (.pure hr' rfl))
    · intro c hc items' r' hr' hlt
      obtain ⟨v', vs', hv', hlowest', -⟩ := after items'
      rw [hv'] at hr' ⊢
      apply Gives.opens (hopens c (by simp [hc])) hr'
      intro kind hs
      apply Gives.ite_neg (ne_of_starts hs rfl)
      refine (hitem c (by simp [hc]) r' v' vs' hr' ?_ hlowest').map fun x hx => ⟨x, rfl, hx⟩
      simp only [List.length_cons, List.length_append] at hlen
      simp only [hr2] at hlt
      omega

/-- A comprehension of one item. -/
theorem bracketed_comprehend_gives {a : γ} {vs us : List Word} {Q : List (Clause Expr) → Prop}
    (hr : r.words = .opening b :: (vs ++ .keyword .for_ :: us)) (hopens : Opens vs)
    (hitem : ∀ r' : Reader, r'.words = vs ++ .keyword .for_ :: us →
      Gives item r' (fun x => f x = a) (.keyword .for_ :: us))
    (hclauses : ∀ r' : Reader, r'.words = .keyword .for_ :: us →
      Gives (clauses .standard sub) r' Q (.closing b :: w :: ws))
    (h : ∀ id span x cs, f x = a → Q cs → P ⟨id, span, comprehend x cs⟩) :
    Gives (bracketed .standard sub b item collect comprehend) r P (w :: ws) := by
  apply Gives.advance hr (by simp)
  intro t r1 _ hr1
  apply Gives.opens hopens hr1
  intro kind hs
  apply Gives.ite_neg (ne_of_starts hs rfl)
  apply Gives.bind (hitem r1 hr1)
  intro first r2 hfirst hr2
  apply Gives.kind hr2
  apply Gives.ite_pos rfl
  apply Gives.bind (hclauses r2 hr2)
  intro cs r3 hcs hr3
  exact close_gives hr3 fun id span => h id span first cs hfirst hcs

end Items

end Parse

end BuildTyping
