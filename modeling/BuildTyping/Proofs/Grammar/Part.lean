import BuildTyping.Proofs.Grammar.Operand

/-!
# Parts between brackets

The elements of a tuple, the entries of a dictionary, the clauses of a comprehension, the arguments
of a call and the bounds of a slice are read back.
-/

namespace BuildTyping

namespace Parse

variable {sub : Precedence → Parse Expr} {n : Nat} {r : Reader} {e : Expr} {w : Word}
variable {ws : List Word}

/-- A tuple has a comma between two elements or after a single one. -/
theorem commaList_gives {es : List Expr} {stop : List Word} (he : ∀ part ∈ e :: es, part.Complete)
    (hsub : Knows sub n) (hn : r.words.length < n)
    (hr : r.words = e.words ++ commas Expr.words es stop)
    (hstop : es ≠ [] ∧ stop = w :: ws ∨ stop = .sign .comma :: w :: ws)
    (hw : w.kind = .closing .round) :
    Gives (exprList .standard sub) r
      (fun e' => ∃ es', e'.shape = .tuple es' ∧ es'.map Expr.bare = (e :: es).map Expr.bare)
      (w :: ws) := by
  have after (es' : List Expr) : ∃ v vs, commas Expr.words es' stop = v :: vs ∧
      Grammar.standard.precedence v.kind = .lowest := by
    rcases hstop with ⟨-, rfl⟩ | rfl
    · obtain ⟨v, vs, hv, rfl | rfl⟩ := exists_commas Expr.words es' w ws
      · exact ⟨_, vs, hv, rfl⟩
      · exact ⟨_, vs, hv, by rw [hw]; rfl⟩
    · obtain ⟨v, vs, hv, rfl | rfl⟩ := exists_commas Expr.words es' (.sign .comma) (w :: ws)
      · exact ⟨_, vs, hv, rfl⟩
      · exact ⟨_, vs, hv, rfl⟩
  have hcomma : ∃ vs, commas Expr.words es stop = .sign .comma :: vs := by
    cases es with
    | nil =>
      rcases hstop with ⟨hne, -⟩ | rfl
      · exact absurd rfl hne
      · exact ⟨_, rfl⟩
    | cons e' es => exact ⟨_, commas_cons ..⟩
  obtain ⟨vs, hvs⟩ := hcomma
  have hlen := congrArg List.length hr
  simp only [List.length_append] at hlen
  rw [hvs] at hr
  apply Gives.bind ((he e (by simp)).gives_lowest hsub hn hr rfl)
  intro first r1 hfirst hr1
  apply Gives.kind hr1
  apply Gives.ite_pos rfl
  rw [← hvs] at hr1
  refine (commas_gives (f := Expr.bare) (g := Expr.bare) hr1 ?_ ?_ ?_).bind
    fun others r2 hothers hr2 => Gives.spanFrom fun span =>
      Gives.node hr2 fun id => ⟨_, rfl, by simp [hfirst, hothers]⟩
  · intro r' hr'
    rcases hstop with ⟨-, rfl⟩ | rfl
    · exact .kind hr' (.ite_neg (by simp [hw]) (.pure hr' rfl))
    · apply Gives.kind hr'
      apply Gives.ite_pos rfl
      apply Gives.advance hr' (by simp)
      intro t r3 _ hr3
      rw [atStart, bind_assoc]
      apply Gives.kind hr3
      rw [hw]
      exact .pure hr3 rfl
  · rcases hstop with ⟨-, rfl⟩ | rfl <;> simp
  · intro e' he' es' r' hr' hlt
    obtain ⟨v, vs, hv, hlowest⟩ := after es'
    rw [hv] at hr' ⊢
    rw [atStart, bind_assoc]
    apply Gives.opens e'.opens hr'
    intro kind hs
    apply Gives.ite_pos hs
    refine ((he e' (by simp [he'])).gives_lowest hsub ?_ hr' hlowest).map fun x hx => ⟨x, rfl, hx⟩
    simp only [hr1] at hlt
    omega

theorem entry_gives {item : Entry Expr} (he : ∀ part ∈ item.parts, part.Complete)
    (hsub : Knows sub n) (hn : r.words.length < n)
    (hr : r.words = (item.map Expr.phrase).words ++ w :: ws)
    (hw : Grammar.standard.precedence w.kind = .lowest) :
    Gives (entry sub) r (fun item' => item'.map Expr.bare = item.map Expr.bare) (w :: ws) := by
  have hr' : r.words = item.key.words ++ .sign .colon :: (item.value.words ++ w :: ws) := by
    rw [hr]
    simp [Entry.words, Entry.map, Expr.words]
  have hlen := congrArg List.length hr'
  refine ((he item.key (by simp [Entry.parts])).gives_lowest hsub hn hr' rfl).bind
    fun key r1 hkey hr1 => Gives.expectFor hr1 rfl (by simp) fun _ r2 _ hr2 => ?_
  refine ((he item.value (by simp [Entry.parts])).gives_lowest hsub ?_ hr2 hw).bind
    fun value r3 hvalue hr3 => .pure hr3 (by simp [Entry.map, hkey, hvalue])
  simp only [List.length_append, List.length_cons] at hlen
  simp only [hr2, List.length_append, List.length_cons]
  omega

/-- The words of the clauses that are still to come, and then `rest`. -/
def clauseWords (cs : List (Clause Expr)) (rest : List Word) : List Word :=
  (cs.map (Clause.map Expr.phrase)).flatMap Clause.words ++ rest

theorem clauseWords_each (target iterable : Expr) (cs : List (Clause Expr)) (rest : List Word) :
    clauseWords (.each target iterable :: cs) rest
      = .keyword .for_ :: (target.phrase.above .comparison ++ .keyword .in_ ::
        (iterable.phrase.above .conditional ++ clauseWords cs rest)) := by
  simp [clauseWords, Clause.map, Clause.words]

theorem clauseWords_only (condition : Expr) (cs : List (Clause Expr)) (rest : List Word) :
    clauseWords (.only condition :: cs) rest
      = .keyword .if_ :: (condition.phrase.above .conditional ++ clauseWords cs rest) := by
  simp [clauseWords, Clause.map, Clause.words]

/-- A clause ends before the next one, whose word would continue no more than a conditional, or
before the bracket. -/
theorem exists_clauseWords (cs : List (Clause Expr)) (b : Bracket) (rest : List Word) :
    ∃ v vs, clauseWords cs (.closing b :: rest) = v :: vs ∧
      Grammar.standard.precedence v.kind ≤ .conditional := by
  cases cs with
  | nil => exact ⟨_, _, rfl, Precedence.lowest_le _⟩
  | cons clause cs =>
    cases clause with
    | each target iterable => exact ⟨_, _, clauseWords_each .., Precedence.lowest_le _⟩
    | only condition => exact ⟨_, _, clauseWords_only .., Nat.le_refl _⟩

theorem clauses_gives {cs : List (Clause Expr)} {b : Bracket}
    (he : ∀ clause ∈ cs, ∀ part ∈ clause.parts, part.Complete) (hsub : Knows sub n)
    (hn : r.words.length < n) (hr : r.words = clauseWords cs (.closing b :: ws)) :
    Gives (clauses .standard sub) r
      (fun cs' => cs'.map (Clause.map Expr.bare) = cs.map (Clause.map Expr.bare))
      (.closing b :: ws) := by
  refine Gives.many (t := fun cs => clauseWords cs (.closing b :: ws)) ?_ ?_ ?_ hr
  · intro r' hr'
    exact Gives.kind hr' (.pure hr' rfl)
  · intro clause hc cs' r' hr' hle
    obtain ⟨v, vs, hv, hconditional⟩ := exists_clauseWords cs' b ws
    have hparts := he clause hc
    rw [← hr', ← hr] at hle
    rw [hv]
    have hguard {part : Expr} {r2 : Reader} (hpart : part.Complete)
        (hr2 : r2.words = part.phrase.above .conditional ++ v :: vs)
        (hlt : r2.words.length < n) :
        Gives (sub .conditional) r2 (fun e' => e'.bare = part.bare) (v :: vs) :=
      hpart.gives_above hsub hlt hr2 (fun hlevel =>
        Precedence.le_trans hconditional (Precedence.conditional_le_reach hlevel)) hconditional
    cases clause with
    | each target iterable =>
      rw [clauseWords_each, hv] at hr'
      have hlen := congrArg List.length hr'
      simp only [List.length_cons, List.length_append] at hlen
      apply Gives.kind hr'
      apply Gives.advance hr' (by simp)
      intro t r1 _ hr1
      have htarget : Gives (targetList .standard sub) r1 (fun e' => e'.bare = target.bare)
          (.keyword .in_ :: (iterable.phrase.above .conditional ++ v :: vs)) := by
        apply commaList_gives_one _ (by simp [Word.keyword])
        apply (hparts target (by simp [Clause.parts])).gives_above hsub _ hr1 _ (Nat.le_refl _)
        · simp only [hr1, List.length_append, List.length_cons]
          omega
        · intro hlevel
          exact Precedence.reach_mono (Precedence.le_of_lt hlevel)
      apply Gives.bind htarget
      intro target' r2 htarget' hr2
      apply Gives.expect hr2 rfl (by simp)
      intro t' r3 _ hr3
      refine (hguard (hparts iterable (by simp [Clause.parts])) hr3 ?_).bind
        fun iterable' r4 hiterable' hr4 => .pure hr4 ⟨_, rfl, ?_⟩
      · simp only [hr3, List.length_append, List.length_cons]
        omega
      · simp [Clause.map, htarget', hiterable']
    | only condition =>
      rw [clauseWords_only, hv] at hr'
      have hlen := congrArg List.length hr'
      simp only [List.length_cons, List.length_append] at hlen
      apply Gives.kind hr'
      apply Gives.advance hr' (by simp)
      intro t r1 _ hr1
      refine (hguard (hparts condition (by simp [Clause.parts])) hr1 ?_).bind
        fun condition' r2 hcondition' hr2 => .pure hr2 ⟨_, rfl, ?_⟩
      · simp only [hr1, List.length_append, List.length_cons]
        omega
      · simp [Clause.map, hcondition']
  · intro clause hc cs'
    cases clause with
    | each target iterable =>
      simp only [clauseWords_each, List.length_append, List.length_cons]
      omega
    | only condition =>
      simp only [clauseWords_only, List.length_append, List.length_cons]
      omega

/-- A name begins a keyword argument only before its sign. -/
theorem argument_gives {a : Argument Expr} (he : a.value.Complete) (hsub : Knows sub n)
    (hn : r.words.length < n) (hr : r.words = (a.map Expr.phrase).words ++ w :: ws)
    (hw : Grammar.standard.precedence w.kind = .lowest) (hassign : w.kind ≠ .sign .assign) :
    Gives (argument sub) r (fun a' => (a'.map Expr.bare).bare = (a.map Expr.bare).bare)
      (w :: ws) := by
  have hread (f : Expr → Argument Expr)
      (hf : ∀ v, v.bare = a.value.bare → ((f v).map Expr.bare).bare = (a.map Expr.bare).bare)
      (r1 : Reader) (hr1 : r1.words = a.value.words ++ w :: ws)
      (hle : r1.words.length ≤ r.words.length) :
      Gives (sub .lowest >>= fun v => pure (f v)) r1
        (fun a' => (a'.map Expr.bare).bare = (a.map Expr.bare).bare) (w :: ws) :=
    (he.gives_lowest hsub (by omega) hr1 hw).bind fun v r2 hv hr2 => .pure hr2 (hf v hv)
  refine Gives.get ?_
  cases a with
  | positional value =>
    obtain ⟨u, us, hu, hs, hplain⟩ := value.opens
    have hr' : r.words = u :: (us ++ w :: ws) := hr.trans (congrArg (· ++ w :: ws) hu)
    have hpeek : r.peek 1 ≠ .sign .assign := by
      obtain ⟨v, vs, hv⟩ := List.exists_cons_of_ne_nil (show us ++ w :: ws ≠ [] by simp)
      rw [hv] at hr'
      rw [Reader.peek_one hr']
      have hrest : Plain (us ++ w :: ws) := hplain.append (.cons hassign)
      rw [hv] at hrest
      exact hrest v rfl
    have hvalue := hread .positional (fun v hv => by simp [Argument.map, hv, Argument.value]) r hr
      (Nat.le_refl _)
    rw [← Reader.current_kind hr'] at hs
    split
    · rename_i hk
      exact absurd hk (ne_of_starts hs rfl)
    · rename_i hk
      exact absurd hk (ne_of_starts hs rfl)
    · exact .ite_neg hpeek hvalue
    · exact hvalue
  | keyword name nameSpan value =>
    have hr' : r.words = .name name :: .sign .assign :: (value.words ++ w :: ws) := hr
    rw [Reader.current_kind hr']
    apply Gives.ite_pos (Reader.peek_one hr')
    apply Gives.advance hr' (by simp)
    intro t r1 ht hr1
    apply Gives.advance hr1 (by simp)
    intro t' r2 _ hr2
    apply hread (.keyword t.value t.span) _ r2 hr2
    · simp only [hr', hr2, List.length_cons]
      omega
    · intro v hv
      have hname : t.value = name := congrArg Word.text ht
      simp [Argument.map, Argument.bare, Argument.value, hname, hv]
  | unpack value =>
    have hr' : r.words = .sign .star :: (value.words ++ w :: ws) := hr
    rw [Reader.current_kind hr']
    refine Gives.advance hr' (by simp) fun t r1 ht hr1 => hread .unpack ?_ r1 hr1 ?_
    · intro v hv
      simp [Argument.map, Argument.value, hv]
    · simp only [hr', hr1, List.length_cons]
      omega
  | unpackKeywords value =>
    have hr' : r.words = .sign .starStar :: (value.words ++ w :: ws) := hr
    rw [Reader.current_kind hr']
    refine Gives.advance hr' (by simp) fun t r1 ht hr1 => hread .unpackKeywords ?_ r1 hr1 ?_
    · intro v hv
      simp [Argument.map, Argument.value, hv]
    · simp only [hr', hr1, List.length_cons]
      omega

/-- The word `w` separates what is before it from `us`: it is a comma before them, or the bracket
with which they begin. -/
def Separates (w : Word) (ws us : List Word) : Prop :=
  w = .closing .round ∧ w :: ws = us ∨ w = .sign .comma ∧ ws = us

theorem Separates.lowest {us : List Word} (h : Separates w ws us) :
    Grammar.standard.precedence w.kind = .lowest := by
  rcases h with ⟨rfl, -⟩ | ⟨rfl, -⟩ <;> rfl

theorem Separates.ne_assign {us : List Word} (h : Separates w ws us) :
    w.kind ≠ .sign .assign := by
  rcases h with ⟨rfl, -⟩ | ⟨rfl, -⟩
  · simp [Word.closing]
  · simp [Word.sign]

/-- A comma is passed and the bracket is not. -/
theorem separator_gives {message : String} {us : List Word} (hr : r.words = w :: ws)
    (hw : Separates w ws us) (hne : us ≠ []) : Gives (separator message) r (fun _ => True) us := by
  rcases hw with ⟨rfl, rfl⟩ | ⟨rfl, rfl⟩
  · exact .kind hr (.ite_neg (by simp [Word.closing]) (.ite_neg (by simp [Word.closing])
      (.pure hr trivial)))
  · exact .kind hr (.ite_pos rfl (.advance hr hne fun _ r' _ hr' => .pure hr' trivial))

section Listed

variable {α β γ : Type} {text : β → List Word} {turn : Parse (Option α)} {f : α → γ} {g : β → γ}

/-- The words of the items that are still to come, and the bracket after them. -/
def listed (text : β → List Word) (items : List β) (rest : List Word) : List Word :=
  separated (items.map text) ++ .closing .round :: rest

theorem listed_ne_nil (text : β → List Word) (items : List β) (rest : List Word) :
    listed text items rest ≠ [] := by simp [listed]

/-- After an item stands a comma and the next one, or the bracket. -/
theorem exists_listed (text : β → List Word) (a : β) (items : List β) (rest : List Word) :
    ∃ v vs, listed text (a :: items) rest = text a ++ v :: vs ∧
      Separates v vs (listed text items rest) := by
  cases items with
  | nil => exact ⟨_, _, by simp [listed, separated], .inl ⟨rfl, rfl⟩⟩
  | cons b items =>
    refine ⟨.sign .comma, listed text (b :: items) rest, ?_, .inr ⟨rfl, rfl⟩⟩
    simp [listed, separated, List.flatMap_map]

/-- A loop over items up to the bracket, each turn of which reads what separates its item too. -/
theorem listed_gives {items : List β} {rest : List Word}
    (hhead : ∀ a ∈ items, ∃ u us, text a = u :: us ∧ u.kind ≠ .closing .round)
    (hturn : ∀ a ∈ items, ∀ (r' : Reader) v vs us, r'.words = text a ++ v :: vs →
      Separates v vs us → us ≠ [] → r'.words.length ≤ r.words.length →
      Gives turn r' (fun o => ∃ x, o = some x ∧ f x = g a) us)
    (hr : r.words = listed text items rest) :
    Gives (many do
      if (← kind) = .closing .round then return none
      else turn) r (fun as => as.map f = items.map g) (.closing .round :: rest) := by
  refine Gives.many (t := fun items => listed text items rest) ?_ ?_ ?_ hr
  · intro r' hr'
    exact .kind hr' (.ite_pos rfl (.pure hr' rfl))
  · intro a ha items' r' hr' hle
    obtain ⟨u, us, hu, hclosing⟩ := hhead a ha
    obtain ⟨v, vs, hv, hsep⟩ := exists_listed text a items' rest
    rw [← hr', ← hr] at hle
    rw [hv] at hr'
    have hr'' := hr'
    rw [hu] at hr''
    apply Gives.kind hr''
    apply Gives.ite_neg hclosing
    exact hturn a ha r' v vs _ hr' hsep (listed_ne_nil text items' rest) hle
  · intro a ha items'
    obtain ⟨u, us, hu, -⟩ := hhead a ha
    obtain ⟨v, vs, hv, ⟨-, hcases⟩ | ⟨-, hcases⟩⟩ := exists_listed text a items' rest
    · rw [hv, ← hcases, hu]
      simp only [List.length_append, List.length_cons]
      omega
    · rw [hv, ← hcases]
      simp only [List.length_append, List.length_cons]
      omega

end Listed

theorem argument_head (a : Argument Expr) : ∃ u us, (a.map Expr.phrase).words = u :: us ∧
    u.kind ≠ .closing .round := by
  cases a with
  | positional value =>
    obtain ⟨u, us, hu, hs, -⟩ := value.opens
    exact ⟨u, us, hu, ne_of_starts hs rfl⟩
  | keyword name nameSpan value => exact ⟨_, _, rfl, by simp [Word.name]⟩
  | unpack value => exact ⟨_, _, rfl, by simp [Word.sign]⟩
  | unpackKeywords value => exact ⟨_, _, rfl, by simp [Word.sign]⟩

/-- Arguments up to the bracket, each but the last with the comma after it. -/
theorem call_gives {as : List (Argument Expr)} {left : Expr}
    (he : ∀ a ∈ as, a.value.Complete) (hsub : Knows sub n) (hn : r.words.length < n)
    (hr : r.words = .opening .round :: listed (fun a => (a.map Expr.phrase).words) as (w :: ws)) :
    Gives (call sub left) r (fun e => ∃ as', e.shape = .call left as' ∧
      as'.map (fun a => (a.map Expr.bare).bare) = as.map (fun a => (a.map Expr.bare).bare))
      (w :: ws) := by
  refine Gives.advance hr (by simp [listed]) fun t r1 _ hr1 => ?_
  refine (listed_gives (fun a _ => argument_head a) ?_ hr1).bind
    fun as' r2 has hr2 => Gives.expect hr2 rfl (by simp) fun _ r3 _ hr3 =>
      Gives.spanFrom fun span => Gives.node hr3 fun id => ⟨as', rfl, has⟩
  intro a ha r' v vs us hr' hsep hne hle
  have hlt : r'.words.length < n := by
    simp only [hr, List.length_cons] at hn
    simp only [hr1] at hle
    omega
  apply Gives.bind (argument_gives (he a ha) hsub hlt hr' hsep.lowest hsep.ne_assign)
  intro a' r2 ha' hr2
  apply Gives.bind (separator_gives hr2 hsep hne)
  intro _ r3 _ hr3
  exact .pure hr3 ⟨a', rfl, ha'⟩

/-- A bound of a slice ends before a colon or the bracket, and so does a missing one. -/
theorem bound_gives {o : Option Expr} (he : ∀ part ∈ o, part.Complete) (hsub : Knows sub n)
    (hn : r.words.length < n) (hr : r.words = o.elim [] Expr.words ++ w :: ws)
    (hw : w = .sign .colon ∨ w = .closing .square) :
    Gives (bound sub) r (fun o' => o'.map Expr.bare = o.map Expr.bare) (w :: ws) := by
  cases o with
  | none => rcases hw with rfl | rfl <;> exact Gives.kind hr (.pure hr rfl)
  | some part =>
    have hlowest : Grammar.standard.precedence w.kind = .lowest := by
      rcases hw with rfl | rfl <;> rfl
    refine Gives.opens part.opens hr fun kind hs => ?_
    split
    · exact absurd rfl (ne_of_starts hs rfl)
    · exact absurd rfl (ne_of_starts hs rfl)
    · exact ((he part rfl).gives_lowest hsub hn hr hlowest).map fun part' h => by simp [h]

/-- What follows the lower bound of a slice. -/
theorem subscriptRest_gives {left : Expr} {lower' upper step : Option Expr}
    (hupper : ∀ part ∈ upper, part.Complete) (hstep : ∀ part ∈ step, part.Complete)
    (hsub : Knows sub n) (hn : r.words.length < n)
    (hr : r.words = .sign .colon :: (upper.elim [] Expr.words ++
      (step.elim [] (fun part => .sign .colon :: part.words) ++ .closing .square :: ws))) :
    Gives (subscriptRest sub left lower') r
      (fun shape => ∃ upper' step', shape = .slice left lower' upper' step' ∧
        upper'.map Expr.bare = upper.map Expr.bare ∧ step'.map Expr.bare = step.map Expr.bare)
      (.closing .square :: ws) := by
  apply Gives.kind hr
  apply Gives.ite_pos rfl
  apply Gives.advance hr (by simp)
  intro t r1 _ hr1
  have hn1 : r1.words.length < n := by
    simp only [hr, List.length_cons] at hn
    simp only [hr1]
    omega
  cases step with
  | none =>
    exact (bound_gives hupper hsub hn1 hr1 (.inr rfl)).bind fun upper' r2 hu hr2 =>
      Gives.kind hr2 (.ite_neg (by simp [Word.closing]) (.pure hr2 ⟨_, _, rfl, hu, rfl⟩))
  | some part =>
    apply Gives.bind (bound_gives hupper hsub hn1 hr1 (.inl rfl))
    intro upper' r2 hu hr2
    apply Gives.kind hr2
    apply Gives.ite_pos rfl
    apply Gives.advance hr2 (by simp)
    intro t' r3 _ hr3
    refine (bound_gives (o := some part) hstep hsub ?_ hr3 (.inr rfl)).bind
      fun step' r4 hs hr4 => .pure hr4 ⟨_, _, rfl, hu, hs⟩
    replace hr3 : r3.words = part.words ++ .closing .square :: ws := hr3
    simp only [hr1, Option.elim_some, List.length_append, List.length_cons] at hn1
    simp only [hr3, List.length_append, List.length_cons]
    omega

/-- An index, which may not be a list of expressions without brackets. -/
theorem subscriptShape_gives_index {left key : Expr} (he : key.Complete) (hsub : Knows sub n)
    (hn : r.words.length < n) (hr : r.words = key.words ++ .closing .square :: ws) :
    Gives (subscriptShape .standard sub left) r
      (fun shape => ∃ key', shape = .index left key' ∧ key'.bare = key.bare)
      (.closing .square :: ws) := by
  refine Gives.opens key.opens hr fun kind hs => .ite_neg (ne_of_starts hs rfl) ?_
  refine (commaList_gives_one (he.gives_lowest hsub hn hr rfl) (by simp [Word.closing])).bind
    fun key' r1 hkey hr1 => Gives.kind hr1 (.ite_neg (by simp [Word.closing]) ?_)
  exact .pure hr1 ⟨key', rfl, hkey⟩

theorem subscriptShape_gives_slice {left : Expr} {lower upper step : Option Expr}
    (hlower : ∀ part ∈ lower, part.Complete) (hupper : ∀ part ∈ upper, part.Complete)
    (hstep : ∀ part ∈ step, part.Complete) (hsub : Knows sub n) (hn : r.words.length < n)
    (hr : r.words = lower.elim [] Expr.words ++ .sign .colon :: (upper.elim [] Expr.words ++
      (step.elim [] (fun part => .sign .colon :: part.words) ++ .closing .square :: ws))) :
    Gives (subscriptShape .standard sub left) r
      (fun shape => ∃ lower' upper' step', shape = .slice left lower' upper' step' ∧
        lower'.map Expr.bare = lower.map Expr.bare ∧ upper'.map Expr.bare = upper.map Expr.bare ∧
        step'.map Expr.bare = step.map Expr.bare)
      (.closing .square :: ws) := by
  cases lower with
  | none =>
    refine Gives.kind hr (.ite_pos rfl ((subscriptRest_gives hupper hstep hsub hn hr).mono ?_))
    rintro shape ⟨upper', step', hshape, hu, hs⟩
    exact ⟨_, upper', step', hshape, rfl, hu, hs⟩
  | some part =>
    refine Gives.opens part.opens hr fun kind hs => .ite_neg (ne_of_starts hs rfl) ?_
    refine (commaList_gives_one ((hlower part rfl).gives_lowest hsub hn hr rfl)
      (by simp [Word.sign])).bind fun part' r1 hpart hr1 => ?_
    refine (subscriptRest_gives hupper hstep hsub ?_ hr1).mono ?_
    · simp only [hr, List.length_append] at hn
      simp only [hr1]
      omega
    · rintro shape ⟨upper', step', hshape, hu, hs⟩
      exact ⟨_, upper', step', hshape, by simp [hpart], hu, hs⟩

end Parse

end BuildTyping
