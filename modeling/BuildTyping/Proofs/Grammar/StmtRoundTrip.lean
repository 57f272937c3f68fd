import BuildTyping.Grammar.Program
import BuildTyping.Proofs.Grammar.Statement
import BuildTyping.Proofs.Grammar.StmtGives
import BuildTyping.Proofs.Syntax.Targets

/-!
# Programs are read back from every layout

However the statements of a program are laid out in lines and blocks, reading the words gives the
statements back.
-/

namespace BuildTyping

namespace Stmt

/-- The statement and all within it can be written. -/
def Printable (s : Stmt) : Prop := ∀ inner ∈ s.nested, inner.form.Printable

theorem printable_iff {s : Stmt} :
    s.Printable ↔ s.form.Printable ∧ ∀ inner ∈ s.form.bodies, inner.Printable := by
  unfold Printable
  rw [nested_eq]
  simp only [List.forall_mem_cons, List.forall_mem_flatMap]

instance : DecidablePred Printable := fun s =>
  inferInstanceAs (Decidable (∀ inner ∈ s.nested, inner.form.Printable))

end Stmt

/-- The kinds of the first words of statements. -/
def TokenKind.Begins (kind : TokenKind) : Prop :=
  (Grammar.standard.starts kind).isSome = true ∨ (Grammar.standard.statements kind).isSome = true

theorem TokenKind.Begins.ne {kind kind' : TokenKind} (h : kind.Begins)
    (hs : Grammar.standard.starts kind' = none) (ht : Grammar.standard.statements kind' = none) :
    kind ≠ kind' := by
  rintro rfl
  simp [Begins, hs, ht] at h

namespace Parse

open Layout

variable {r : Reader} {w : Word} {ws us mid rest : List Word} {s : Stmt} {ss : List Stmt}

section Parameters

/-- A default ends before a comma or the bracket, and so does a missing one. -/
theorem default_gives {o : Option Expr} {v : Word} {vs : List Word}
    (ho : ∀ value ∈ o, value.Printable)
    (hr : r.words = (o.elim [] fun value => .sign .assign :: value.words) ++ v :: vs)
    (hsep : Separates v vs us) :
    Gives (default? (expression .standard)) r (fun o' => o'.map Expr.bare = o.map Expr.bare)
      (v :: vs) := by
  cases o with
  | none => exact .kind hr (.ite_neg hsep.ne_assign (.pure hr rfl))
  | some value =>
    have hr' : r.words = .sign .assign :: (value.words ++ v :: vs) := hr
    refine .kind hr' (.ite_pos rfl (.advance hr' (by simp) fun _ r1 _ hr1 => ?_))
    exact (expr_gives (ho value rfl) hr1 hsep.lowest).map fun value' h => by simp [h]

theorem parameterKind_gives {k : ParameterKind} {label : String}
    (hr : r.words = k.words ++ .name label :: ws) :
    Gives parameterKind r (fun k' => k' = k) (.name label :: ws) := by
  cases k with
  | normal => exact .kind hr (.pure hr rfl)
  | varArgs | kwArgs =>
    exact Gives.kind hr (Gives.advance hr (by simp) fun _ r1 _ hr1 => .pure hr1 rfl)

theorem parameter_gives {p : Parameter} {v : Word} {vs : List Word} (hp : p.Printable)
    (hr : r.words = p.words ++ v :: vs) (hsep : Separates v vs us) (hne : us ≠ []) :
    Gives (parameter (expression .standard)) r (fun o => o.map Parameter.bare = some p.bare)
      us := by
  obtain ⟨hdefault, hnormal⟩ := hp
  have hr' : r.words = p.kind.words ++ .name p.name ::
      ((p.default.elim [] fun value => .sign .assign :: value.words) ++ v :: vs) := by
    simpa [Parameter.words] using hr
  refine Gives.get (.bind (parameterKind_gives hr') ?_)
  rintro _ r1 rfl hr1
  refine .kind hr1 (.ite_neg (by simp [Word.name]) ?_)
  refine .expectFor hr1 rfl (by simp) fun name r2 hname hr2 => ?_
  have hname' : name.value = p.name := congrArg Word.text hname
  have finish {x : Parse (Option Expr)} (hx : Gives x r2
      (fun o => o.map Expr.bare = p.default.map Expr.bare) (v :: vs)) :
      Gives (do
        let value ← x
        let span ← spanFrom r.current.span.start
        separator "expected `,` or `)` in parameter list"
        return some ⟨name.value, p.kind, value, span⟩) r2
        (fun o => o.map Parameter.bare = some p.bare) us := by
    refine .bind hx fun value r3 hvalue hr3 => .spanFrom fun span => ?_
    refine (separator_gives hr3 hsep hne).bind fun _ r4 _ hr4 => .pure hr4 ?_
    simp [Parameter.bare, hname', hvalue]
  by_cases hk : p.kind = .normal
  · exact .ite_pos hk (finish (default_gives hdefault hr2 hsep))
  · have hnone : p.default = none := by
      cases hd : p.default with
      | none => rfl
      | some value => exact absurd (hnormal (by simp [hd])) hk
    rw [hnone] at hr2
    exact .ite_neg hk (finish (.pure hr2 (by rw [hnone])))

theorem parameters_gives {ps : List Parameter} (hp : ∀ p ∈ ps, p.Printable)
    (hr : r.words = listed Parameter.words ps rest) :
    Gives (many do
      if (← kind) = .closing .round then return none
      else some <$> parameter (expression .standard)) r
      (fun os => (os.filterMap id).map Parameter.bare = ps.map Parameter.bare)
      (.closing .round :: rest) := by
  have hhead (p : Parameter) : ∃ u us, p.words = u :: us ∧ u.kind ≠ .closing .round := by
    cases hk : p.kind with
    | normal => exact ⟨_, _, by rw [Parameter.words, hk]; rfl, by simp [Word.name]⟩
    | varArgs | kwArgs => exact ⟨_, _, by rw [Parameter.words, hk]; rfl, by simp [Word.sign]⟩
  refine (listed_gives (f := Option.map Parameter.bare) (g := fun p => some p.bare)
    (fun p _ => hhead p) ?_ hr).mono ?_
  · intro p hmem r' v vs us hr' hsep hne _
    exact (parameter_gives (hp p hmem) hr' hsep hne).map fun o ho => ⟨o, rfl, ho⟩
  · intro os hos
    have := congrArg (List.filterMap id) hos
    simpa [List.filterMap_map, List.map_filterMap, Function.comp_def] using this

end Parameters

section Lines

/-- A simple statement begins as a statement does. -/
theorem begins_of_simple {form : Form Stmt} (h : form.simple? = some ws) :
    ∃ w us, ws = w :: us ∧ w.kind.Begins := by
  have hopens (e : Expr) (us : List Word) : ∃ w vs, e.words ++ us = w :: vs ∧ w.kind.Begins := by
    obtain ⟨w, vs, hw, hs, -⟩ := e.opens
    exact ⟨w, vs ++ us, by rw [hw, List.cons_append], .inl hs⟩
  cases form with
  | expression value =>
    cases h
    simpa using hopens value []
  | assign target value =>
    cases h
    exact hopens target _
  | augment op target value =>
    obtain ⟨sign, -, rfl⟩ := Option.map_eq_some_iff.1 h
    exact hopens target _
  | return_ | pass | break_ | continue_ =>
    cases h
    exact ⟨_, _, rfl, .inr rfl⟩
  | define | branch | loop => cases h

theorem begins_of_line (h : Line ss ws) : ∃ w us, ws = w :: us ∧ w.kind.Begins := by
  cases h with
  | last simple | closed simple | more simple =>
    obtain ⟨w, us, rfl, hw⟩ := begins_of_simple simple
    exact ⟨w, _, rfl, hw⟩

/-- What is left of a line: the statements after a semicolon, or nothing. -/
def LineRest (more : Bool) (ss : List Stmt) (ws : List Word) : Prop :=
  if more then Line ss ws else ss = [] ∧ ws = []

/-- The first statement of a line is read back and leaves the rest of the line. -/
theorem line_closes (h : Line (s :: ss) ws) (hs : s.form.Printable) : ∃ more us,
    LineRest more ss us ∧ us.length < ws.length ∧ ∀ r mid, mid ≠ [] → r.words = ws ++ mid →
      Closes (statement .standard) r s more (us ++ mid) := by
  cases h with
  | last simple =>
    refine ⟨false, [], ⟨rfl, rfl⟩, by simp, fun r mid hmid hr => ?_⟩
    exact statement_closes simple hs (.newline hmid) (by simpa using hr)
  | closed simple =>
    refine ⟨false, [], ⟨rfl, rfl⟩, by simp, fun r mid hmid hr => ?_⟩
    exact statement_closes simple hs (.closed hmid) (by simpa using hr)
  | @more _ _ ws us simple rest =>
    refine ⟨true, us, rest, by simp; omega, fun r mid hmid hr => ?_⟩
    obtain ⟨w, vs, rfl, hw⟩ := begins_of_line rest
    exact statement_closes simple hs (.more (hw.ne rfl rfl)) (by simpa using hr)

/-- A loop over statements on fewer than `n` words: it goes on at the first word of a statement,
and stops at a word of the kind `stop`. -/
structure Turns (item : Parse (Option Stmt)) (stop : TokenKind) (n : Nat) : Prop where
  more : ∀ ⦃r : Reader⦄ ⦃w ws⦄, r.words.length < n → r.words = w :: ws → w.kind.Begins →
    item r = (some <$> statement .standard) r
  stop : ∀ ⦃r : Reader⦄ ⦃w ws⦄, r.words = w :: ws → w.kind = stop → item r = .ok none r

variable {item : Parse (Option Stmt)} {stop : TokenKind} {n : Nat} {bs : List Stmt}

/-- A statement of a loop, and the statements after it. -/
theorem Turns.many_cons (turns : Turns item stop n) (hn : r.words.length < n)
    (hr : r.words = w :: ws) (hw : w.kind.Begins)
    (h : Gives (statement .standard) r (fun s' => s'.bare = s.bare) mid)
    (hlt : mid.length < r.words.length)
    (hrest : ∀ r' : Reader, r'.words = mid →
      Gives (many item) r' (fun ss' => ss'.map Stmt.bare = bs) rest) :
    Gives (many item) r (fun ss' => ss'.map Stmt.bare = s.bare :: bs) rest := by
  have hsome : Gives (some <$> statement .standard) r (fun o => ∃ a, o = some a ∧ a.bare = s.bare)
      mid := h.map fun s' hs => ⟨s', rfl, hs⟩
  obtain ⟨o, r', ho, hP, hr'⟩ := hsome
  exact Gives.many_cons ⟨o, r', by rw [turns.more hn hr hw, ho], hP, hr'⟩ hlt hrest

theorem line_gives (turns : Turns item stop n) (h : Line ss ws) (hp : ∀ s ∈ ss, s.form.Printable)
    (hn : r.words.length < n) (hr : r.words = ws ++ mid) (hmid : mid ≠ [])
    (hrest : ∀ r' : Reader, r'.words = mid →
      Gives (many item) r' (fun ss' => ss'.map Stmt.bare = bs) rest) :
    Gives (many item) r (fun ss' => ss'.map Stmt.bare = ss.map Stmt.bare ++ bs) rest := by
  induction ss generalizing ws r with
  | nil => cases h
  | cons s ss ih =>
    obtain ⟨hs, hss⟩ := List.forall_mem_cons.1 hp
    obtain ⟨more, us, hleft, hlt, hcloses⟩ := line_closes h hs
    obtain ⟨w, vs, hw, hbegins⟩ := begins_of_line h
    have hless : (us ++ mid).length < r.words.length := by
      simp only [hr, List.length_append]
      omega
    refine turns.many_cons hn (hr.trans (by rw [hw, List.cons_append])) hbegins
      (hcloses r mid hmid hr).gives hless fun r' hr' => ?_
    cases more with
    | false =>
      obtain ⟨rfl, rfl⟩ := hleft
      exact hrest r' hr'
    | true => exact ih hleft hss (by rw [hr']; omega) hr'

/-- A body on one line goes on after a semicolon, and only there. -/
theorem inline_turn (stmt : Parse Stmt) (hk : r.afterSemicolon = true → r.current.kind.Begins) :
    (do
      let afterSemicolon := (← get).previous?.any fun t => t.kind = .sign .semicolon
      if afterSemicolon && (← inBody) then some <$> stmt else return none : Parse (Option Stmt)) r
      = if r.afterSemicolon then (some <$> stmt) r else .ok none r := by
  change (if (r.afterSemicolon && (r.current.kind ≠ .dedent && r.current.kind ≠ .endOfSource))
    = true then some <$> stmt else pure none : Parse (Option Stmt)) r = _
  cases hafter : r.afterSemicolon with
  | false => rfl
  | true =>
    have hbegins := hk hafter
    have hdedent : r.current.kind ≠ .dedent := hbegins.ne rfl rfl
    have hend : r.current.kind ≠ .endOfSource := hbegins.ne rfl rfl
    simp [hdedent, hend]

/-- The statements of a body on one line, after the first. -/
theorem inline_gives {stmt elif : Parse Stmt} {more : Bool} (hknows : KnowsStatements stmt elif n)
    (hleft : LineRest more ss us) (hp : ∀ s ∈ ss, s.form.Printable) (hn : r.words.length < n)
    (hr : r.words = us ++ mid) (hmid : mid ≠ []) (hafter : r.afterSemicolon = more) :
    Gives (many do
      let afterSemicolon := (← get).previous?.any fun t => t.kind = .sign .semicolon
      if afterSemicolon && (← inBody) then some <$> stmt else return none) r
      (fun ss' => ss'.map Stmt.bare = ss.map Stmt.bare) mid := by
  induction ss generalizing us r more with
  | nil =>
    cases more with
    | true => cases hleft
    | false =>
      obtain ⟨-, rfl⟩ := hleft
      refine ⟨[], r, ?_, rfl, hr⟩
      rw [many, inline_turn stmt (by simp [hafter]), hafter]
      rfl
  | cons s ss ih =>
    cases more with
    | false => cases hleft.1
    | true =>
      obtain ⟨hs, hss⟩ := List.forall_mem_cons.1 hp
      obtain ⟨w, vs, hw, hbegins⟩ := begins_of_line hleft
      obtain ⟨more, us', hleft', hlt, hcloses⟩ := line_closes hleft hs
      obtain ⟨s', r', hrun, hbare, hr', hafter'⟩ := hcloses r mid hmid hr
      have hkind : r.current.kind.Begins := by
        rw [Reader.current_kind (hr.trans (by rw [hw, List.cons_append]))]
        exact hbegins
      have hturn : (some <$> stmt) r = .ok (some s') r' :=
        map_ok.2 ⟨s', by rw [hknows.statement r hn, hrun], rfl⟩
      have hless : r'.words.length < r.words.length := by
        simp only [hr, hr', List.length_append]
        omega
      obtain ⟨others, last, hothers, hmap, hlast⟩ :=
        ih hleft' hss (by omega) hr' hafter'
      have hremaining : r'.remaining < r.remaining := by
        rw [Reader.words_length, Reader.words_length] at hless
        omega
      refine ⟨s' :: others, last, ?_, by simp [hbare, hmap], hlast⟩
      rw [many, inline_turn stmt (fun _ => hkind), hafter, if_pos rfl, hturn]
      simp only [hremaining, if_true, hothers]

/-- A body on the line of its colon is read back. -/
theorem body_gives_inline {stmt elif : Parse Stmt} (hknows : KnowsStatements stmt elif n)
    (h : Line ss ws) (hp : ∀ s ∈ ss, s.form.Printable) (hn : r.words.length < n)
    (hr : r.words = .sign .colon :: (ws ++ mid)) (hmid : mid ≠ []) :
    Gives (body stmt) r (fun ss' => ss'.map Stmt.bare = ss.map Stmt.bare) mid := by
  obtain ⟨w, vs, hw, hbegins⟩ := begins_of_line h
  refine .expectFor hr rfl (by simp [hmid]) fun _ r1 _ hr1 => ?_
  have hn1 : r1.words.length < n := by
    simp only [hr, List.length_cons] at hn
    simp only [hr1]
    omega
  refine .kind (hr1.trans (by rw [hw, List.cons_append])) (.ite_neg (hbegins.ne rfl rfl) ?_)
  cases ss with
  | nil => cases h
  | cons s ss =>
    obtain ⟨hs, hss⟩ := List.forall_mem_cons.1 hp
    obtain ⟨more, us, hleft, hlt, hcloses⟩ := line_closes h hs
    obtain ⟨s', r2, hrun, hbare, hr2, hafter⟩ := hcloses r1 mid hmid hr1
    have hn2 : r2.words.length < n := by
      simp only [hr1, List.length_append] at hn1
      simp only [hr2, List.length_append]
      omega
    obtain ⟨others, last, hothers, hmap, hlast⟩ :=
      inline_gives hknows hleft hss hn2 hr2 hmid hafter
    refine ⟨s' :: others, last, ?_, by simp [hbare, hmap], hlast⟩
    rw [bind_of_ok (by rw [hknows.statement r1 hn1, hrun]), bind_of_ok hothers]
    rfl

end Lines

section Bodies

/-- The word does not go on with a branch before it. -/
def EndsBranch (w : Word) : Prop := w.kind ≠ .keyword .elif ∧ w.kind ≠ .keyword .else_

theorem endsBranch_of_begins (h : w.kind.Begins) : EndsBranch w := ⟨h.ne rfl rfl, h.ne rfl rfl⟩

theorem begins_of_compound (h : Compound s ws) : ∃ w us, ws = w :: us ∧ w.kind.Begins := by
  cases h <;> exact ⟨_, _, rfl, .inr rfl⟩

theorem begins_of_block (h : Block ss ws) : ws = [] ∨ ∃ w us, ws = w :: us ∧ w.kind.Begins := by
  cases h with
  | nil => exact .inl rfl
  | line first rest =>
    obtain ⟨w, us, rfl, hw⟩ := begins_of_line first
    exact .inr ⟨w, _, rfl, hw⟩
  | compound first rest =>
    obtain ⟨w, us, rfl, hw⟩ := begins_of_compound first
    exact .inr ⟨w, _, rfl, hw⟩

/-- A block ends before a word that begins no statement and ends the branch before it. -/
theorem exists_block_append (h : Block ss ws) (hw : EndsBranch w) (rest : List Word) :
    ∃ v vs, ws ++ w :: rest = v :: vs ∧ EndsBranch v := by
  rcases begins_of_block h with rfl | ⟨v, vs, rfl, hv⟩
  · exact ⟨w, rest, rfl, hw⟩
  · exact ⟨v, _, rfl, endsBranch_of_begins hv⟩

variable {stmt elif : Parse Stmt} {n : Nat}

theorem turns_body (hknows : KnowsStatements stmt elif n) :
    Turns (do if ← inBody then some <$> stmt else return none) .dedent n := by
  constructor
  · intro r w ws hn hr hw
    have hdedent : r.current.kind ≠ .dedent := Reader.current_kind hr ▸ hw.ne rfl rfl
    have hend : r.current.kind ≠ .endOfSource := Reader.current_kind hr ▸ hw.ne rfl rfl
    rw [inBody, bind_assoc, kind_bind_run, pure_bind_run]
    simp only [hdedent, hend, ne_eq, not_false_eq_true, decide_true, Bool.and_self, if_true]
    simp only [Functor.map, EStateM.map, hknows.statement r hn]
  · intro r w ws hr hw
    rw [inBody, bind_assoc, kind_bind_run, pure_bind_run, Reader.current_kind hr, hw]
    rfl

/-- A definition is read back when its body is. -/
theorem define_gives {name : String} {ps : List Parameter} {body : List Stmt} {span : Span}
    (hps : ∀ p ∈ ps, p.Printable)
    (hr : r.words = .keyword .def_ :: .name name ::
      (enclosed .round (separated (ps.map Parameter.words)) ++ ws ++ rest))
    (hbody : ∀ {stmt elif n} {r' : Reader}, KnowsStatements stmt elif n →
      r'.words = ws ++ rest → r'.words.length < n →
      Gives (Parse.body stmt) r' (fun ss => ss.map Stmt.bare = body.map Stmt.bare) rest)
    (hne : ws ≠ []) :
    Gives (statement .standard) r
      (fun s => s.bare = (⟨span, .define name ps body⟩ : Stmt).bare) rest := by
  obtain ⟨stmt, elif, hknows, heq⟩ := exists_statementOf hr rfl
  refine .of_run heq (.advance hr (by simp) fun t r1 _ hr1 => ?_)
  refine .expectFor hr1 rfl (by simp [enclosed]) fun label r2 hlabel hr2 => ?_
  have hr2' : r2.words = .opening .round :: listed Parameter.words ps (ws ++ rest) := by
    rw [hr2]
    simp [enclosed, listed]
  refine .expect hr2' rfl (listed_ne_nil _ _ _) fun _ r3 _ hr3 => ?_
  refine (parameters_gives hps hr3).bind fun os r4 hos hr4 => ?_
  refine .expect hr4 rfl (by simp [hne]) fun _ r5 _ hr5 => ?_
  refine (hbody hknows hr5 ?_).bind fun ss r6 hss hr6 => .spanFrom fun _ => .pure hr6 ?_
  · simp only [hr, hr5, List.length_cons, List.length_append]
    omega
  · have hname : label.value = name := congrArg Word.text hlabel
    simp only [Stmt.bare_eq, Form.bare, Stmt.bareAll_eq_map, hname, hos, hss]

theorem loop_gives {target iterable : Expr} {body : List Stmt} {span : Span}
    (htarget : target.Printable) (hassignable : unassignable? target = none)
    (hiterable : iterable.Printable)
    (hr : r.words = .keyword .for_ :: (target.words ++ .keyword .in_ ::
      (iterable.words ++ .sign .colon :: ws)))
    (hbody : ∀ {stmt elif n} {r' : Reader}, KnowsStatements stmt elif n →
      r'.words = .sign .colon :: ws → r'.words.length < n →
      Gives (Parse.body stmt) r' (fun ss => ss.map Stmt.bare = body.map Stmt.bare) rest) :
    Gives (statement .standard) r
      (fun s => s.bare = (⟨span, .loop target iterable body⟩ : Stmt).bare) rest := by
  obtain ⟨stmt, elif, hknows, heq⟩ := exists_statementOf hr rfl
  refine .of_run heq (.advance hr (by simp) fun t r1 _ hr1 => ?_)
  refine (targetList_gives htarget hassignable hr1).bind fun target' r2 htarget' hr2 => ?_
  refine (checkTarget_gives hr2 hassignable htarget').bind fun _ r3 _ hr3 => ?_
  refine .expectFor hr3 rfl (by simp) fun _ r4 _ hr4 => ?_
  refine (exprList_gives hiterable hr4 rfl (by simp [Word.sign])).bind
    fun iterable' r5 hiterable' hr5 => ?_
  refine (hbody hknows hr5 ?_).bind fun ss r6 hss hr6 => .spanFrom fun _ => .pure hr6 ?_
  · simp only [hr, hr5, List.length_cons, List.length_append]
    omega
  · simp only [Stmt.bare_eq, Form.bare, Stmt.bareAll_eq_map, htarget', hiterable', hss]

theorem forms_printable (h : ∀ s ∈ ss, s.Printable) : ∀ s ∈ ss, s.form.Printable :=
  fun s hs => (Stmt.printable_iff.1 (h s hs)).1

theorem suite_head (h : Suite ss ws) : ∃ us, ws = .sign .colon :: us := by
  cases h <;> exact ⟨_, rfl⟩

mutual

/-- A block is read back by any loop over statements that stops behind it. -/
theorem block_gives : ∀ {ss : List Stmt} {ws : List Word}, Block ss ws →
    (∀ s ∈ ss, s.Printable) → ∀ {item : Parse (Option Stmt)} {stop : TokenKind} {n : Nat}
      {r : Reader} {w : Word} {rest : List Word}, Turns item stop n → w.kind = stop →
      EndsBranch w → r.words.length < n → r.words = ws ++ w :: rest →
      Gives (many item) r (fun ss' => ss'.map Stmt.bare = ss.map Stmt.bare) (w :: rest)
  | _, _, .nil, _, _, _, _, _, _, _, turns, hw, _, _, hr =>
    ⟨[], _, by rw [many, turns.stop hr hw], rfl, hr⟩
  | _, _, @Block.line ss ss' ws us first block, hp, _, _, n, r, w, rest, turns, hw, hends, hn,
      hr => by
    have hmid : r.words = ws ++ (us ++ w :: rest) := by rw [hr, List.append_assoc]
    rw [List.map_append]
    refine line_gives turns first (forms_printable fun s hs => hp s (by simp [hs])) hn hmid
      (by simp) fun r' hr' => block_gives block (fun s hs => hp s (by simp [hs])) turns hw hends
        ?_ hr'
    simp only [hmid, List.length_append] at hn
    simp only [hr', List.length_append]
    omega
  | _, _, @Block.compound s ss ws us first block, hp, _, _, n, r, w, rest, turns, hw, hends, hn,
      hr => by
    have hmid : r.words = ws ++ (us ++ w :: rest) := by rw [hr, List.append_assoc]
    obtain ⟨u, vs, hu, hbegins⟩ := begins_of_compound first
    obtain ⟨v, vs', hv, hends'⟩ := exists_block_append block hends rest
    have hless : (us ++ w :: rest).length < r.words.length := by
      simp only [hmid, hu, List.length_append, List.length_cons]
      omega
    refine turns.many_cons hn (hmid.trans (by rw [hu, List.cons_append])) hbegins
      (hv ▸ compound_gives first (hp s (by simp)) hends' (hv ▸ hmid)) hless
      fun r' hr' => block_gives block (fun s hs => hp s (by simp [hs])) turns hw hends ?_ hr'
    rw [hr']
    omega

theorem suite_gives : ∀ {ss : List Stmt} {ws : List Word}, Suite ss ws →
    (∀ s ∈ ss, s.Printable) → ∀ {stmt elif : Parse Stmt} {n : Nat} {r : Reader}
      {rest : List Word}, KnowsStatements stmt elif n → rest ≠ [] → r.words = ws ++ rest →
      r.words.length < n → Gives (body stmt) r (fun ss' => ss'.map Stmt.bare = ss.map Stmt.bare)
        rest
  | _, _, .inline line, hp, _, _, _, _, _, hknows, hrest, hr, hn =>
    body_gives_inline hknows line (forms_printable hp) hn hr hrest
  | _, _, .indented _ block, hp, stmt, _, n, r, rest, hknows, hrest, hr, hn => by
    refine .expectFor hr rfl (by simp) fun _ r1 _ hr1 => .kind hr1 (.ite_pos rfl ?_)
    refine .advance hr1 (by simp) fun _ r2 _ hr2 => ?_
    refine .expectFor hr2 rfl (by simp) fun _ r3 _ hr3 => ?_
    replace hr3 := hr3.trans (List.append_assoc ..)
    refine (block_gives block hp (turns_body hknows) rfl ?_ ?_ hr3).bind fun ss' r4 hss hr4 =>
      .expect hr4 rfl hrest fun _ r5 _ hr5 => .pure hr5 hss
    · simp [EndsBranch, Word.dedent]
    · simp only [hr, List.length_append, List.length_cons] at hn
      simp only [hr3, List.length_append, List.length_cons, List.length_nil]
      omega

/-- A branch is read back after whatever word begins it. -/
theorem branch_gives : ∀ {s : Stmt} {ws : List Word}, Branch s ws → s.Printable →
    ∀ {r : Reader} {u w : Word} {rest : List Word}, r.words = u :: (ws ++ w :: rest) →
      EndsBranch w →
      Gives (statementBy .standard (some .branch)) r (fun s' => s'.bare = s.bare) (w :: rest)
  | _, _, .mk suite others, hp, r, u, w, rest, hr, hends => by
    obtain ⟨⟨hcondition, -⟩, hbodies⟩ := Stmt.printable_iff.1 hp
    obtain ⟨ws', hws⟩ := suite_head suite
    obtain ⟨stmt, elif, hknows, heq⟩ := exists_knowsStatements r
    refine .of_run ((heq _).trans (congrFun (branch_eq ..) r)) ?_
    have hlen := congrArg List.length hr
    simp only [List.length_cons, List.length_append] at hlen
    refine .advance hr (by simp) fun t r1 _ hr1 => ?_
    rw [List.append_assoc, List.append_assoc] at hr1
    rw [hws, List.cons_append] at hr1
    refine (expr_gives hcondition hr1 rfl).bind fun condition' r2 hcondition' hr2 => ?_
    rw [← List.cons_append, ← hws] at hr2
    refine (suite_gives suite (fun s hs => hbodies s (List.mem_append_left _ hs)) hknows (by simp)
      hr2 ?_).bind fun body' r3 hbody hr3 => ?_
    · simp only [hr2, List.length_append, List.length_cons]
      omega
    refine (other_gives others (fun s hs => hbodies s (List.mem_append_right _ hs)) hknows hends
      hr3 ?_).bind fun other' r4 hother hr4 => .spanFrom fun _ => .pure hr4 ?_
    · simp only [hr3, List.length_append, List.length_cons]
      omega
    · simp only [Stmt.bare_eq, Form.bare, Stmt.bareAll_eq_map, hcondition', hbody, hother]

theorem other_gives : ∀ {ss : List Stmt} {ws : List Word}, Other ss ws →
    (∀ s ∈ ss, s.Printable) → ∀ {stmt elif : Parse Stmt} {n : Nat} {r : Reader} {w : Word}
      {rest : List Word}, KnowsStatements stmt elif n → EndsBranch w → r.words = ws ++ w :: rest →
      r.words.length < n → Gives (otherwise stmt elif) r
        (fun ss' => ss'.map Stmt.bare = ss.map Stmt.bare) (w :: rest)
  | _, _, .none, _, _, _, _, _, w, _, _, hends, hr, _ => by
    refine .kind hr ?_
    split
    · exact absurd ‹_› hends.1
    · exact absurd ‹_› hends.2
    · exact .pure hr rfl
  | _, _, .elif branch, hp, _, _, _, r, _, _, hknows, hends, hr, hn => by
    refine .kind hr (.bind (.of_run (hknows.branch r hn)
      (branch_gives branch (hp _ (by simp)) hr hends)) fun s' r1 hs hr1 => .pure hr1 ?_)
    rw [List.map_singleton, List.map_singleton, hs]
  | _, _, @Other.else_ _ ws suite, hp, _, _, n, r, w, rest, hknows, _, hr, hn => by
    have hr' : r.words = .keyword .else_ :: (ws ++ w :: rest) := hr
    refine .kind hr' (.advance hr' (by simp) fun _ r1 _ hr1 => ?_)
    refine suite_gives suite hp hknows (by simp) hr1 ?_
    simp only [hr', List.length_cons] at hn
    rw [hr1]
    omega

theorem compound_gives : ∀ {s : Stmt} {ws : List Word}, Compound s ws → s.Printable →
    ∀ {r : Reader} {w : Word} {rest : List Word}, EndsBranch w → r.words = ws ++ w :: rest →
      Gives (statement .standard) r (fun s' => s'.bare = s.bare) (w :: rest)
  | _, _, .define suite, hp, r, w, rest, _, hr => by
    obtain ⟨⟨hps, -⟩, hbodies⟩ := Stmt.printable_iff.1 hp
    obtain ⟨ws', hws⟩ := suite_head suite
    exact define_gives hps (by simpa using hr) (fun hknows hr' hn =>
      suite_gives suite hbodies hknows (by simp) hr' hn) (by simp [hws])
  | _, _, .branch branch, hp, r, w, rest, hends, hr => by
    refine .of_run ?_ (branch_gives branch hp hr hends)
    rw [statement, Reader.current_kind hr]
    rfl
  | _, _, @Compound.loop _ target iterable _ ws suite, hp, r, w, rest, _, hr => by
    obtain ⟨⟨htarget, hassignable, hiterable, -⟩, hbodies⟩ := Stmt.printable_iff.1 hp
    obtain ⟨ws', hws⟩ := suite_head suite
    have hsuite : ws ++ w :: rest = .sign .colon :: (ws' ++ w :: rest) := by
      rw [hws, List.cons_append]
    have hr' : r.words = .keyword .for_ :: (target.words ++ .keyword .in_ ::
        (iterable.words ++ .sign .colon :: (ws' ++ w :: rest))) := by
      rw [← hsuite, hr]
      simp
    exact loop_gives htarget hassignable hiterable hr' fun hknows hr' hn =>
      suite_gives suite hbodies hknows (by simp) (hr'.trans hsuite.symm) hn

end

end Bodies

theorem turns_program (n : Nat) :
    Turns (do if (← get).hasTokens then some <$> statement .standard else return none)
      .endOfSource n := by
  constructor
  · intro r w ws _ hr hw
    have hk : r.hasTokens = true := by
      simpa [Reader.hasTokens, Reader.current_kind hr] using hw.ne rfl rfl
    rw [get_bind_run, hk]
    rfl
  · intro r w ws hr hw
    have hk : r.hasTokens = false := by
      simp [Reader.hasTokens, Reader.current_kind hr, hw]
    rw [get_bind_run, hk]
    rfl

end Parse

namespace Layout

theorem Block.append {ss' : List Stmt} {us : List Word} (h' : Block ss' us) :
    ∀ {ss : List Stmt} {ws : List Word}, Block ss ws → Block (ss ++ ss') (ws ++ us)
  | _, _, .nil => h'
  | _, _, .line first rest => by
    rw [List.append_assoc, List.append_assoc]
    exact .line first (append h' rest)
  | _, _, .compound first rest => by
    rw [List.append_assoc]
    exact .compound first (append h' rest)

theorem Block.of_forall {ss : List Stmt} (h : ∀ s ∈ ss, ∃ ws, Block [s] ws) :
    ∃ ws, Block ss ws := by
  induction ss with
  | nil => exact ⟨[], .nil⟩
  | cons s ss ih =>
    obtain ⟨⟨ws, hs⟩, hss⟩ := List.forall_mem_cons.1 h
    obtain ⟨us, hrest⟩ := ih hss
    exact ⟨ws ++ us, hrest.append hs⟩

/-- Whatever can be written has a layout. -/
theorem exists_block_of_printable {s : Stmt} (h : s.Printable) : ∃ ws, Block [s] ws := by
  induction s using Stmt.inductionOnBodies with
  | step s ih =>
    obtain ⟨hform, hbodies⟩ := Stmt.printable_iff.1 h
    have hbody {ss : List Stmt} (hss : ss ⊆ s.form.bodies) (hne : ss ≠ []) :
        ∃ ws, Suite ss ws := by
      obtain ⟨ws, hws⟩ := Block.of_forall fun inner hi =>
        ih inner (hss hi) (hbodies inner (hss hi))
      exact ⟨_, .indented hne hws⟩
    have hcompound {ws : List Word} (hs : Compound s ws) : ∃ ws, Block [s] ws :=
      ⟨_, .compound hs .nil⟩
    have hsimple {ws : List Word} (hs : s.form.simple? = some ws) : ∃ ws, Block [s] ws :=
      ⟨_, .line (.last hs) .nil⟩
    obtain ⟨span, form⟩ := s
    cases form with
    | augment op target value =>
      obtain ⟨sign, hsign⟩ := Option.isSome_iff_exists.1 hform.2.2.1
      exact hsimple (by rw [Form.simple?, hsign]; rfl)
    | define name ps body =>
      obtain ⟨ws, hws⟩ := hbody (List.Subset.refl body) (by simpa using hform.2)
      exact hcompound (.define hws)
    | branch condition body other =>
      obtain ⟨ws, hws⟩ := hbody (List.subset_append_left body other) (by simpa using hform.2)
      have hother : ∃ us, Other other us := by
        by_cases hnil : other = []
        · exact ⟨[], hnil ▸ .none⟩
        · obtain ⟨us, hus⟩ := hbody (List.subset_append_right body other) hnil
          exact ⟨_, .else_ hus⟩
      obtain ⟨us, hus⟩ := hother
      exact hcompound (.branch (.mk hws hus))
    | loop target iterable body =>
      obtain ⟨ws, hws⟩ := hbody (List.Subset.refl body) (by simpa using hform.2.2.2)
      exact hcompound (.loop hws)
    | expression | assign | return_ | pass | break_ | continue_ => exact hsimple rfl

end Layout

namespace Program

open Parse

/-- Statements have layouts, and from tokens that say the words of any of them they are read back:
up to ids and spans they are the same statements, and only the mark of the end is left. -/
theorem ofTokens_block {ss : List Stmt} (h : ∀ s ∈ ss, s.Printable) :
    (∃ ws, Layout.Block ss ws) ∧
    ∀ (ws : List Word) (ts : List Token) (stop : Token) (file : String), Layout.Block ss ws →
      ts.map Token.word = ws → stop.kind = .endOfSource →
      ∃ p r', ofTokens (ts ++ [stop]) file = .ok p r' ∧ p.body.map Stmt.bare = ss.map Stmt.bare ∧
        p.stop = stop.span.stop ∧ p.file = file ∧ r'.ahead = [stop] := by
  refine ⟨Layout.Block.of_forall fun s hs => Layout.exists_block_of_printable (h s hs), ?_⟩
  intro ws ts stop file hblock hts hstop
  have hahead : (Reader.start (ts ++ [stop]) file).ahead = ts ++ [stop] :=
    Reader.ahead_start hstop file
  have hr : (Reader.start (ts ++ [stop]) file).words = ws ++ [stop.word] := by
    rw [Reader.words, hahead, List.map_append, hts]
    rfl
  have hends : EndsBranch stop.word := by simp [EndsBranch, Token.word, hstop]
  obtain ⟨ss', r', hmany, hbare, hr'⟩ :=
    block_gives hblock h (turns_program _) hstop hends (Nat.lt_succ_self _) hr
  have hrun : ofTokens (ts ++ [stop]) file = .ok ⟨ss', r'.current.span.stop, file⟩ r' := by
    rw [ofTokens, program, bind_of_ok hmany]
    rfl
  -- what is left is as long as the mark alone and ends with it
  obtain ⟨_, us, hpasses, -⟩ :=
    program_stacked Grammar.standard_solid file (Reader.ended_start _ file) hrun
  have hlen : [stop].length = r'.ahead.length := by
    simpa [Reader.words] using (congrArg List.length hr').symm
  have hlast : r'.ahead = [stop] := (List.append_inj' (hahead.symm.trans hpasses.ahead) hlen).2.symm
  refine ⟨_, r', hrun, hbare, ?_, rfl, hlast⟩
  rw [(List.cons.inj hlast).1]

/-- A branch on one line, another after `elif` whose body is a block, and a body of its own at the
end that stands on its line. -/
theorem ofTokens_block_elif :
    let label (s : String) : Expr := ⟨0, default, .name s⟩
    let stmt (form : Form Stmt) : Stmt := ⟨default, form⟩
    let loop := stmt (.loop (label "k") (label "c") [stmt (.return_ none)])
    let inner := stmt (.branch (label "b") [loop, stmt .pass] [stmt .continue_])
    let first := stmt (.assign (label "x") (label "y"))
    let second := stmt (.augment .floorDivide (label "x") (label "y"))
    let ss := [stmt (.branch (label "a") [first, second] [inner])]
    let ws : List Word := [.keyword .if_, .name "a", .sign .colon, .name "x", .sign .assign,
      .name "y", .sign .semicolon, .name "x", .sign .slashSlashAssign, .name "y", .sign .semicolon,
      .newline, .keyword .elif, .name "b", .sign .colon, .newline, .indent, .keyword .for_,
      .name "k", .keyword .in_, .name "c", .sign .colon, .keyword .return_, .newline,
      .keyword .pass, .newline, .dedent, .keyword .else_, .sign .colon, .keyword .continue_,
      .newline]
    let ts := ws.map fun w => (⟨w.kind, w.text, default⟩ : Token)
    (∀ s ∈ ss, s.Printable) ∧ Layout.Block ss ws ∧ ts.map Token.word = ws ∧
      ∃ p r', ofTokens (ts ++ [.endAt default]) "BUILD" = .ok p r' ∧
        p.body.map Stmt.bare = ss.map Stmt.bare ∧ p.stop = default ∧ p.file = "BUILD" ∧
        r'.ahead = [.endAt default] := by
  intro label stmt loop inner first second ss ws ts
  have hloop : Layout.Compound loop _ := .loop (.inline (.last rfl))
  have hblock : Layout.Block [loop, stmt .pass] _ := .compound hloop (.line (.last rfl) .nil)
  have hinner : Layout.Branch inner _ :=
    .mk (.indented (by simp) hblock) (.else_ (.inline (.last rfl)))
  have hline : Layout.Line [first, second] _ := .more rfl (.closed rfl)
  have hblock' : Layout.Block ss _ :=
    .compound (.branch (.mk (.inline hline) (.elif hinner))) .nil
  have hlayout : Layout.Block ss ws :=
    cast (congrArg (Layout.Block ss) (by decide +kernel)) hblock'
  have hp : ∀ s ∈ ss, s.Printable := by decide +kernel
  have hts : ts.map Token.word = ws := by decide +kernel
  exact ⟨hp, hlayout, hts, (ofTokens_block hp).2 ws ts (.endAt default) "BUILD" hlayout hts rfl⟩

end Program

end BuildTyping
