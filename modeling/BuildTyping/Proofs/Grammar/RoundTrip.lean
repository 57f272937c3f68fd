import BuildTyping.Proofs.Grammar.Expression
import BuildTyping.Proofs.Grammar.Part
import BuildTyping.Proofs.Number.Decimal

/-!
# Expressions are read back from their words

Every form of expression is complete when its parts are, so an expression that can be written is
read back from its words with the fewest brackets.
-/

namespace BuildTyping

open Parse

/-- A literal that has a text of its own: an integer has no sign, and a float is left out. -/
def Literal.Printable : Literal → Prop
  | int value => 0 ≤ value ∧ value < (Nat.pow 2 63 : Int)
  | float _ => False
  | _ => True

instance : DecidablePred Literal.Printable
  | .int _ => inferInstanceAs (Decidable (_ ∧ _))
  | .float _ => .isFalse fun h => h
  | .string _ | .bool _ | .none => .isTrue trivial

def Clause.isLoop {α : Type} : Clause α → Bool
  | each _ _ => true
  | only _ => false

/-- The clauses of a comprehension begin with a loop. -/
def Shape.Printable {α : Type} : Shape α → Prop
  | literal value => value.Printable
  | listComp _ clauses | dictComp _ clauses => clauses.head?.any Clause.isLoop = true
  | _ => True

instance {α : Type} : DecidablePred (Shape.Printable (α := α))
  | .literal _ => inferInstanceAs (Decidable (Literal.Printable _))
  | .listComp _ _ | .dictComp _ _ => inferInstanceAs (Decidable (_ = true))
  | .name _ | .list _ | .tuple _ | .dict _ | .call _ _ | .binary _ _ _ | .unary _ _
  | .member _ _ | .index _ _ | .slice _ _ _ _ | .conditional _ _ _ => .isTrue trivial

/-- The expression and all within it can be written. -/
def Expr.Printable (e : Expr) : Prop := ∀ node ∈ e.nodes, node.shape.Printable

instance : DecidablePred Expr.Printable := fun e =>
  inferInstanceAs (Decidable (∀ node ∈ e.nodes, node.shape.Printable))

namespace Expr.Complete

variable {id : Nat} {span : Span}

theorem literal {value : Literal} (h : value.Printable) :
    (⟨id, span, .literal value⟩ : Expr).Complete := by
  intro sub least r w ws hsub hr _ _
  rw [words_eq] at hr
  have hr' : r.words = value.word :: w :: ws := hr
  have hs : Grammar.standard.starts value.word.kind = some .atom := by
    cases value with
    | bool b => cases b <;> rfl
    | _ => rfl
  apply Leads.start hr' hs
  apply Gives.get
  have hleaf : Gives (do
      let _ ← advance
      node r.current.span (.literal value)) r
      (fun e' => e'.bare = (⟨id, span, .literal value⟩ : Expr).bare) (w :: ws) :=
    Gives.advance hr' (by simp) fun _ r1 _ hr1 => .node hr1 fun _ => bare_congr rfl
  have hvalue : r.current.value = value.word.text := congrArg Word.text (Reader.current_word hr')
  dsimp only
  rw [Reader.current_kind hr']
  cases value with
  | int n =>
    simp only [Literal.word, hvalue, Integer.read?_toString h.1 h.2]
    exact hleaf
  | float x => exact h.elim
  | string s =>
    simp only [Literal.word, hvalue]
    exact hleaf
  | bool b => cases b <;> exact hleaf
  | none => exact hleaf

theorem name {label : String} : (⟨id, span, .name label⟩ : Expr).Complete := by
  intro sub least r w ws hsub hr _ _
  rw [words_eq] at hr
  have hr' : r.words = .name label :: w :: ws := hr
  apply Leads.start hr' rfl
  apply Gives.get
  have hvalue : r.current.value = label := congrArg Word.text (Reader.current_word hr')
  dsimp only
  rw [Reader.current_kind hr']
  simp only [Word.name, hvalue]
  exact Gives.advance hr' (by simp) fun _ r1 _ hr1 => .node hr1 fun _ => bare_congr rfl

theorem list {es : List Expr} (he : ∀ e ∈ es, e.Complete) :
    (⟨id, span, .list es⟩ : Expr).Complete := by
  intro sub least r w ws hsub hr _ _
  rw [words_eq] at hr
  have hr' : r.words = enclosed .square (separated (es.map words)) ++ w :: ws := by
    rw [hr, Shape.map, Shape.words, List.map_map]
    rfl
  refine Leads.start hr' rfl (bracketed_gives hr' (fun e _ => e.opens)
    (fun e h r' u us hr'' hlt hu => (he e h).gives_lowest hsub hlt hr'' hu) ?_)
  intro id span es' hes
  exact bare_congr (by simp only [Shape.map, Shape.bare, hes])

theorem tuple {es : List Expr} (he : ∀ e ∈ es, e.Complete) :
    (⟨id, span, .tuple es⟩ : Expr).Complete := by
  intro sub least r w ws hsub hr _ _
  rw [words_eq] at hr
  cases es with
  | nil =>
    have hr' : r.words = .opening .round :: .closing .round :: w :: ws := hr
    apply Leads.start hr' rfl
    apply Gives.advance hr' (by simp)
    intro _ r1 _ hr1
    apply Gives.kind hr1
    apply Gives.ite_pos rfl
    apply Gives.advance hr1 (by simp)
    intro _ r2 _ hr2
    apply Gives.spanFrom
    intro _
    exact .node hr2 fun _ => bare_congr rfl
  | cons e es =>
    obtain ⟨stop, hr', hstop⟩ : ∃ stop,
        r.words = .opening .round :: (e.words ++ commas words es stop) ∧
        (es ≠ [] ∧ stop = .closing .round :: w :: ws ∨
          stop = .sign .comma :: .closing .round :: w :: ws) := by
      cases es with
      | nil =>
        refine ⟨_, hr.trans ?_, .inr rfl⟩
        simp [Shape.map, Shape.words, enclosed, commas, words]
      | cons e' es =>
        refine ⟨_, hr.trans ?_, .inl ⟨by simp, rfl⟩⟩
        simp [Shape.map, Shape.words, enclosed, separated, commas, words, List.flatMap_map]
    apply Leads.start hr' rfl
    apply group_gives e.opens hr'
    intro r1 hr1
    apply Gives.mono (commaList_gives he hsub (by simp [hr', hr1]) hr1 hstop rfl)
    rintro e' ⟨es', hshape, hes⟩
    exact bare_congr (by simp only [hshape, Shape.map, Shape.bare, hes])

theorem dict {items : List (Entry Expr)} (he : ∀ item ∈ items, ∀ e ∈ item.parts, e.Complete) :
    (⟨id, span, .dict items⟩ : Expr).Complete := by
  intro sub least r w ws hsub hr _ _
  rw [words_eq] at hr
  have hr' : r.words =
      enclosed .curly (separated (items.map fun item => (item.map phrase).words)) ++ w :: ws := by
    rw [hr, Shape.map, Shape.words, List.map_map]
    rfl
  refine Leads.start hr' rfl (bracketed_gives hr' (fun item _ => item.key.opens.append
    (.cons (by simp [Word.sign]))) (fun item h r' u us hr'' hlt hu =>
      entry_gives (he item h) hsub hlt hr'' hu) ?_)
  intro id span items' hitems
  exact bare_congr (by simp only [Shape.map, Shape.bare, hitems])

/-- The clauses of a comprehension after their first word. -/
theorem clauseWords_of_printable {cs : List (Clause Expr)} {rest : List Word}
    (h : cs.head?.any Clause.isLoop = true) :
    ∃ us, clauseWords cs rest = .keyword .for_ :: us := by
  cases cs with
  | nil => simp at h
  | cons clause cs =>
    cases clause with
    | each target iterable => exact ⟨_, clauseWords_each ..⟩
    | only condition => simp [Clause.isLoop] at h

theorem listComp {element : Expr} {cs : List (Clause Expr)} (he : element.Complete)
    (hcs : ∀ c ∈ cs, ∀ e ∈ c.parts, e.Complete)
    (h : cs.head?.any Clause.isLoop = true) :
    (⟨id, span, .listComp element cs⟩ : Expr).Complete := by
  intro sub least r w ws hsub hr _ _
  rw [words_eq] at hr
  have hr' : r.words = .opening .square :: (element.words ++
      clauseWords cs (.closing .square :: w :: ws)) := by
    rw [hr]
    simp [Shape.map, Shape.words, enclosed, clauseWords, words]
  obtain ⟨us, hus⟩ := clauseWords_of_printable h
  rw [hus] at hr'
  refine Leads.start hr' rfl (bracketed_comprehend_gives hr' element.opens
    (fun r1 hr1 => he.gives_lowest hsub (by simp [hr', hr1]) hr1 rfl)
    (fun r2 hr2 => clauses_gives hcs hsub ?_ (hr2.trans hus.symm)) ?_)
  · simp only [hr', hr2, List.length_append, List.length_cons]
    omega
  · intro id span element' cs' helement hcs'
    exact bare_congr (by simp only [Shape.map, Shape.bare, helement, hcs'])

theorem dictComp {item : Entry Expr} {cs : List (Clause Expr)}
    (he : ∀ e ∈ item.parts, e.Complete) (hcs : ∀ c ∈ cs, ∀ e ∈ c.parts, e.Complete)
    (h : cs.head?.any Clause.isLoop = true) :
    (⟨id, span, .dictComp item cs⟩ : Expr).Complete := by
  intro sub least r w ws hsub hr _ _
  rw [words_eq] at hr
  have hr' : r.words = .opening .curly :: ((item.map phrase).words ++
      clauseWords cs (.closing .curly :: w :: ws)) := by
    rw [hr]
    simp [Shape.map, Shape.words, enclosed, clauseWords]
  obtain ⟨us, hus⟩ := clauseWords_of_printable h
  rw [hus] at hr'
  refine Leads.start hr' rfl (bracketed_comprehend_gives hr'
    (item.key.opens.append (.cons (by simp [Word.sign])))
    (fun r1 hr1 => entry_gives he hsub (by simp [hr', hr1]) hr1 rfl)
    (fun r2 hr2 => clauses_gives hcs hsub ?_ (hr2.trans hus.symm)) ?_)
  · simp only [hr', hr2, List.length_append, List.length_cons]
    omega
  · intro id span item' cs' hitem hcs'
    exact bare_congr (by simp only [Shape.map, Shape.bare, hitem, hcs'])

theorem unary {op : UnaryOp} {operand : Expr} (he : operand.Complete) :
    (⟨id, span, .unary op operand⟩ : Expr).Complete := by
  intro sub least r w ws hsub hr _ hreach
  rw [words_eq] at hr
  have hr' : r.words = op.word :: (operand.phrase.atLeast (operandPrecedence op) ++ w :: ws) := hr
  have hw : Grammar.standard.precedence w.kind ≤ operandPrecedence op :=
    Precedence.reach_operandPrecedence op ▸ hreach
  apply Leads.start hr' op.starts_word
  apply Gives.advance hr' (by simp)
  intro t r1 ht hr1
  have hop : UnaryOp.ofKind? t.kind = some op :=
    (congrArg (fun u => UnaryOp.ofKind? u.kind) ht).trans op.ofKind?_word
  have hlt : r1.words.length < r.words.length := by simp [hr', hr1]
  rw [atLeast_eq] at hr1
  simp only [hop]
  refine (he.gives_operand hsub hlt hr1 Precedence.admits_operand
    (fun h => Precedence.le_trans hreach (Precedence.reach_mono h)) hw).bind
      fun operand' r2 h hr2 => .node hr2 fun _ => bare_congr ?_
  simp only [Shape.map, Shape.bare, h]

theorem power {left right : Expr} (hl : left.Complete) (hr : right.Complete) :
    (⟨id, span, .binary .power left right⟩ : Expr).Complete := by
  intro sub least r w ws hsub hwords hlevel hreach
  rw [words_eq] at hwords
  have hr' : r.words = left.phrase.above .power ++
      .sign .starStar :: (right.phrase.atLeast .unary ++ w :: ws) := by
    rw [hwords]
    simp [Shape.map, Shape.words, BinaryOp.words, BinaryOp.word]
  have hlt : least < .power := @BinaryOp.lt_precedence_of_admits .power least hlevel
  have hlen := congrArg List.length hr'
  simp only [List.length_append, List.length_cons] at hlen
  refine (hl.leads_above hsub hr' hlt Precedence.le_reach_of_power_lt).extend rfl hlt
    (fun left' r1 hleft hr1 => Gives.advance hr1 (by simp) fun _ r2 _ hr2 => ?_) ?_
  · rw [atLeast_eq] at hr2 hlen
    have hlt2 : r2.words.length < r.words.length := by
      simp only [hr2, List.length_append, List.length_cons]
      omega
    refine (hr.gives_operand hsub hlt2 hr2 Precedence.admits_unary (fun h => ?_) hreach).bind
      fun right' r3 hright hr3 => .node hr3 fun _ => bare_congr ?_
    · exact Precedence.le_trans hreach (@Precedence.reach_mono .unary _ h)
    · simp only [Shape.map, Shape.bare, hleft, hright]
  · simp only [List.length_append, List.length_cons]
    omega

theorem binary {op : BinaryOp} {left right : Expr} (hop : op ≠ .power) (hl : left.Complete)
    (hr : right.Complete) : (⟨id, span, .binary op left right⟩ : Expr).Complete := by
  intro sub least r w ws hsub hwords hlevel hreach
  rw [words_eq] at hwords
  have hr' : r.words = left.phrase.atLeast op.precedence ++ op.word ::
      ((if op = .notIn then [.keyword .in_] else []) ++
        (right.phrase.above op.precedence ++ w :: ws)) := by
    rw [hwords, Shape.map, Shape.words_binary hop]
    simp [BinaryOp.words]
  have hlt : least < op.precedence := BinaryOp.lt_precedence_of_admits hlevel
  -- what follows the right operand binds no more tightly than the operator, so it ends there too
  have hself : op.precedence.reach = op.precedence := BinaryOp.reach_precedence hop
  have hw : Grammar.standard.precedence w.kind ≤ op.precedence := hself ▸ hreach
  have hlen := congrArg List.length hr'
  simp only [List.length_append, List.length_cons] at hlen
  have hright (left' : Expr) (hleft : left'.bare = left.bare) (r2 : Reader)
      (hr2 : r2.words = right.phrase.above op.precedence ++ w :: ws) :
      Gives (sub op.precedence >>= fun right' => binaryNode op left' right') r2
        (fun e' => e'.bare = (⟨id, span, .binary op left right⟩ : Expr).bare) (w :: ws) := by
    refine (hr.gives_above hsub ?_ hr2 (fun h => ?_) hw).bind
      fun right' r3 hright hr3 => .node hr3 fun _ => bare_congr ?_
    · simp only [hr2, List.length_append, List.length_cons]
      omega
    · exact Precedence.le_trans hreach (Precedence.reach_mono (Precedence.le_of_lt h))
    · simp only [Shape.map, Shape.bare, hleft, hright]
  -- at the operator the left operand is all that has been read
  have hleads : Leads sub least r left _ := hl.leads_atLeast hsub hr' hlt fun h => by
    rw [op.precedence_word]
    exact hself ▸ Precedence.reach_mono h
  by_cases hnot : op = .notIn
  · subst hnot
    apply hleads.extend rfl hlt
    · intro left' r1 hleft hr1
      apply Gives.advance hr1 (by simp)
      intro _ r2 _ hr2
      apply Gives.expectFor hr2 rfl (by simp)
      intro _ r3 _ hr3
      exact hright left' hleft r3 hr3
    · simp only [List.length_append, List.length_cons]
      omega
  · rw [if_neg hnot, List.nil_append] at hleads
    apply hleads.extend (BinaryOp.continues_word hop hnot) hlt
    · intro left' r1 hleft hr1
      apply Gives.advance hr1 (by simp)
      intro t r2 ht hr2
      have hkind : BinaryOp.ofKind? t.kind = some op :=
        (congrArg (fun u => BinaryOp.ofKind? u.kind) ht).trans (BinaryOp.ofKind?_word hnot)
      simp only [hkind]
      exact hright left' hleft r2 hr2
    · simp only [List.length_append, List.length_cons]
      omega

theorem conditional {whenTrue condition whenFalse : Expr} (ht : whenTrue.Complete)
    (hc : condition.Complete) (hf : whenFalse.Complete) :
    (⟨id, span, .conditional whenTrue condition whenFalse⟩ : Expr).Complete := by
  intro sub least r w ws hsub hwords hlevel hreach
  rw [words_eq] at hwords
  have hr' : r.words = whenTrue.phrase.above .conditional ++ .keyword .if_ ::
      (condition.phrase.above .conditional ++ .keyword .else_ :: (whenFalse.words ++ w :: ws)) := by
    rw [hwords]
    simp [Shape.map, Shape.words, words]
  have hlt : least < .conditional :=
    @Precedence.lt_of_admits least .conditional hlevel (by decide) (by decide)
  have hw : Grammar.standard.precedence w.kind ≤ .lowest := hreach
  have hlen := congrArg List.length hr'
  simp only [List.length_append, List.length_cons] at hlen
  refine (ht.leads_above hsub hr' hlt Precedence.conditional_le_reach).extend rfl hlt
    (fun left' r1 hleft hr1 => Gives.advance hr1 (by simp) fun _ r2 _ hr2 => ?_) ?_
  · have hlt2 : r2.words.length < r.words.length := by
      simp only [hr2, List.length_append, List.length_cons]
      omega
    apply Gives.bind (hc.gives_above hsub hlt2 hr2 (fun _ => Precedence.lowest_le _)
      (Precedence.lowest_le _))
    intro condition' r3 hcond hr3
    apply Gives.expectFor hr3 rfl (by simp)
    intro _ r4 _ hr4
    refine (hf.gives hsub ?_ hr4 (.inl whenFalse.lowest_lt_level)
      (Precedence.le_trans hw (Precedence.lowest_le _)) hw).bind
        fun other r5 hother hr5 => .node hr5 fun _ => bare_congr ?_
    · simp only [hr4, List.length_append, List.length_cons]
      omega
    · simp only [Shape.map, Shape.bare, hleft, hcond, hother]
  · simp only [List.length_append, List.length_cons]
    omega

/-- What goes on as a call does after an expression that is read back. -/
theorem postfix_leads {object : Expr} {shape : Shape Expr} {rule : ContinueRule} {u w : Word}
    {us ws : List Word} {sub : Precedence → Parse Expr} {least : Precedence} {r : Reader}
    (he : object.Complete) (hlevel : least.Admits .call) (hsub : Knows sub r.words.length)
    (hr : r.words = object.phrase.atLeast .call ++ u :: (us ++ w :: ws))
    (hu : Grammar.standard.continues u.kind = some (.call, rule))
    (h : ∀ left' r', left'.bare = object.bare → r'.words = u :: (us ++ w :: ws) →
      r'.words.length < r.words.length →
      Gives (continueWith .standard sub left' .call rule) r'
        (fun e' => e'.bare = (⟨id, span, shape⟩ : Expr).bare) (w :: ws)) :
    Leads sub least r ⟨id, span, shape⟩ (w :: ws) := by
  have hlt : least < .call := Precedence.lt_of_admits hlevel (by decide) (by decide)
  refine (he.leads_atLeast hsub hr hlt fun hcall => ?_).extend hu hlt
    (fun left' r' hleft hr' => h left' r' hleft hr' ?_) ?_
  · exact Precedence.le_trans (Precedence.le_primary _) (Precedence.reach_mono hcall)
  · have hpos := List.length_pos_iff.2 (@opens_atLeast _ .call object.opens).ne_nil
    simp only [hr, hr', List.length_append]
    omega
  · simp only [List.length_append, List.length_cons]
    omega

theorem member {object : Expr} {label : String} (he : object.Complete) :
    (⟨id, span, .member object label⟩ : Expr).Complete := by
  intro sub least r w ws hsub hwords hlevel _
  rw [words_eq] at hwords
  have hr' : r.words = object.phrase.atLeast .call ++
      .sign .dot :: ([.name label] ++ w :: ws) := by
    rw [hwords]
    simp [Shape.map, Shape.words]
  apply he.postfix_leads hlevel hsub hr' rfl
  intro left' r1 hleft hr1 _
  apply Gives.advance hr1 (by simp)
  intro _ r2 _ hr2
  apply Gives.expectFor hr2 rfl (by simp)
  intro t r3 ht hr3
  have hlabel : t.value = label := congrArg Word.text ht
  apply Gives.spanFrom
  intro _
  apply Gives.node hr3
  intro _
  apply bare_congr
  simp only [Shape.map, Shape.bare, hleft, hlabel]

theorem call {callee : Expr} {as : List (Argument Expr)} (hc : callee.Complete)
    (he : ∀ a ∈ as, a.value.Complete) : (⟨id, span, .call callee as⟩ : Expr).Complete := by
  intro sub least r w ws hsub hwords hlevel _
  rw [words_eq] at hwords
  have hr' : r.words = callee.phrase.atLeast .call ++ .opening .round ::
      (separated (as.map fun a => (a.map phrase).words) ++ [.closing .round] ++ w :: ws) := by
    rw [hwords]
    simp [Shape.map, Shape.words, enclosed, Function.comp_def]
  apply hc.postfix_leads hlevel hsub hr' rfl
  intro left' r1 hleft hr1 hlt
  have hr1' : r1.words =
      .opening .round :: listed (fun a => (a.map phrase).words) as (w :: ws) := by
    simpa [listed] using hr1
  apply Gives.mono (call_gives he hsub hlt hr1')
  rintro e' ⟨as', hshape, has⟩
  exact bare_congr (by simp only [hshape, Shape.map, Shape.bare, hleft, List.map_map,
    Function.comp_def, has])

/-- What is between the square brackets after an expression. -/
theorem subscript_gives {left : Expr} {w : Word} {us ws : List Word} {P : Expr → Prop}
    {sub : Precedence → Parse Expr} {r : Reader} {Q : Shape Expr → Prop}
    (hr : r.words = .opening .square :: (us ++ [.closing .square] ++ w :: ws))
    (h : ∀ r' : Reader, r'.words = us ++ .closing .square :: w :: ws →
      r'.words.length < r.words.length →
      Gives (subscriptShape .standard sub left) r' Q (.closing .square :: w :: ws))
    (hP : ∀ id span shape, Q shape → P ⟨id, span, shape⟩) :
    Gives (subscript .standard sub left) r P (w :: ws) := by
  refine Gives.advance hr (by simp) fun _ r1 _ hr1 => ?_
  have hr1' : r1.words = us ++ .closing .square :: w :: ws := by simpa using hr1
  refine (h r1 hr1' ?_).bind fun shape r2 hshape hr2 =>
    Gives.expect hr2 rfl (by simp) fun _ r3 _ hr3 =>
      Gives.spanFrom fun _ => .node hr3 fun _ => hP _ _ _ hshape
  simp [hr, hr1]

theorem index {object key : Expr} (he : object.Complete) (hk : key.Complete) :
    (⟨id, span, .index object key⟩ : Expr).Complete := by
  intro sub least r w ws hsub hwords hlevel _
  rw [words_eq] at hwords
  have hr' : r.words = object.phrase.atLeast .call ++
      .opening .square :: (key.words ++ [.closing .square] ++ w :: ws) := by
    rw [hwords]
    simp [Shape.map, Shape.words, enclosed, words]
  apply he.postfix_leads hlevel hsub hr' rfl
  intro left' r1 hleft hr1 hlt
  apply subscript_gives hr1 (fun r2 hr2 hlt2 =>
    subscriptShape_gives_index hk hsub (by omega) hr2)
  rintro id span shape ⟨key', rfl, hkey⟩
  exact bare_congr (by simp only [Shape.map, Shape.bare, hleft, hkey])

theorem slice {object : Expr} {lower upper step : Option Expr} (he : object.Complete)
    (hlower : ∀ part ∈ lower, part.Complete) (hupper : ∀ part ∈ upper, part.Complete)
    (hstep : ∀ part ∈ step, part.Complete) :
    (⟨id, span, .slice object lower upper step⟩ : Expr).Complete := by
  intro sub least r w ws hsub hwords hlevel _
  rw [words_eq] at hwords
  have hr' : r.words = object.phrase.atLeast .call ++ .opening .square ::
      (lower.elim [] words ++ .sign .colon :: (upper.elim [] words ++
        step.elim [] fun part => .sign .colon :: part.words) ++ [.closing .square] ++ w :: ws) := by
    rw [hwords]
    cases lower <;> cases upper <;> cases step <;>
      simp [Shape.map, Shape.words, enclosed, words]
  apply he.postfix_leads hlevel hsub hr' rfl
  intro left' r1 hleft hr1 hlt
  apply subscript_gives hr1 (fun r2 hr2 hlt2 => subscriptShape_gives_slice hlower hupper hstep
    hsub (by omega) (by simpa using hr2))
  rintro id span shape ⟨lower', upper', step', rfl, hl, hu, hs⟩
  exact bare_congr (by simp only [Shape.map, Shape.bare, hleft, hl, hu, hs])

end Expr.Complete

namespace Expr

theorem printable_iff {e : Expr} :
    e.Printable ↔ e.shape.Printable ∧ ∀ part ∈ e.shape.parts, part.Printable := by
  unfold Printable
  rw [nodes_eq]
  simp only [List.forall_mem_cons, List.forall_mem_flatMap]

/-- Every expression that can be written is read back from its words. -/
theorem complete {e : Expr} (h : e.Printable) : e.Complete := by
  induction e using inductionOnParts with
  | step e ih =>
    obtain ⟨hshape, hparts⟩ := printable_iff.1 h
    replace ih : ∀ part ∈ e.shape.parts, part.Complete := fun part hp => ih part hp (hparts part hp)
    obtain ⟨id, span, shape⟩ := e
    cases shape with
    | literal value => exact .literal hshape
    | name label => exact .name
    | list elements => exact .list ih
    | tuple elements => exact .tuple ih
    | dict entries => exact .dict fun item hi e he => ih e (List.mem_flatMap.2 ⟨item, hi, he⟩)
    | listComp element clauses =>
      exact .listComp (ih element (by simp [Shape.parts])) (fun c hc e he =>
        ih e (List.mem_cons_of_mem _ (List.mem_flatMap.2 ⟨c, hc, he⟩))) hshape
    | dictComp item clauses =>
      exact .dictComp (fun e he => ih e (List.mem_append_left _ he)) (fun c hc e he =>
        ih e (List.mem_append_right _ (List.mem_flatMap.2 ⟨c, hc, he⟩))) hshape
    | call callee arguments =>
      exact .call (ih callee (by simp [Shape.parts])) fun a ha =>
        ih _ (List.mem_cons_of_mem _ (List.mem_map_of_mem ha))
    | binary op left right =>
      have hl := ih left (by simp [Shape.parts])
      have hr := ih right (by simp [Shape.parts])
      by_cases hop : op = .power
      · subst hop
        exact .power hl hr
      · exact .binary hop hl hr
    | unary op operand => exact .unary (ih operand (by simp [Shape.parts]))
    | member object label => exact .member (ih object (by simp [Shape.parts]))
    | index object key =>
      exact .index (ih object (by simp [Shape.parts])) (ih key (by simp [Shape.parts]))
    | slice object lower upper step =>
      exact .slice (ih object (by simp [Shape.parts]))
        (fun part hp => ih part (by simp [Shape.parts, Option.mem_def.1 hp]))
        (fun part hp => ih part (by simp [Shape.parts, Option.mem_def.1 hp]))
        (fun part hp => ih part (by simp [Shape.parts, Option.mem_def.1 hp]))
    | conditional whenTrue condition whenFalse =>
      exact .conditional (ih whenTrue (by simp [Shape.parts]))
        (ih condition (by simp [Shape.parts])) (ih whenFalse (by simp [Shape.parts]))

/-- An expression is read back from tokens that say its words and from nothing else: up to ids and
spans it is the same expression, and only the mark of the end is left. -/
theorem expression_words {e : Expr} (h : e.Printable) {ts : List Token}
    (hts : ts.map Token.word = e.words) {stop : Token} (hstop : stop.kind = .endOfSource)
    (file : String) :
    ∃ e' r', expression .standard .lowest (Reader.start (ts ++ [stop]) file) = .ok e' r' ∧
      e'.bare = e.bare ∧ r'.ahead = [stop] := by
  have hahead : (Reader.start (ts ++ [stop]) file).ahead = ts ++ [stop] :=
    Reader.ahead_start hstop file
  have hr : (Reader.start (ts ++ [stop]) file).words = e.words ++ [stop.word] := by
    rw [Reader.words, hahead, List.map_append, hts]
    rfl
  have hlowest : Grammar.standard.precedence stop.word.kind = .lowest := by
    rw [Token.word, hstop]
    rfl
  have hgives : Gives (expression .standard .lowest) (Reader.start (ts ++ [stop]) file)
      (fun e' => e'.bare = e.bare) [stop.word] :=
    (complete h).gives_lowest (fun _ _ _ => rfl) (Nat.lt_succ_self _) hr hlowest
  obtain ⟨e', r', hrun, hbare, hr'⟩ := hgives
  refine ⟨e', r', hrun, hbare, ?_⟩
  -- what is left is as long as the mark alone and ends with it
  obtain ⟨us, hpasses, -⟩ :=
    expression_reads Grammar.standard_solid _ (Reader.ended_start _ file) hrun
  have hlen : [stop].length = r'.ahead.length := by
    simpa [Reader.words] using (congrArg List.length hr').symm
  exact (List.append_inj' (hahead.symm.trans hpasses.ahead) hlen).2.symm

/-- A sign before a power of a sum in brackets. -/
theorem expression_words_power :
    let label (s : String) : Expr := ⟨0, default, .name s⟩
    let sum : Expr := ⟨0, default, .binary .add (label "b") (label "c")⟩
    let e : Expr := ⟨0, default, .unary .negate ⟨0, default, .binary .power (label "a") sum⟩⟩
    let ts : List Token := [⟨.sign .minus, "-", default⟩, ⟨.identifier, "a", default⟩,
      ⟨.sign .starStar, "**", default⟩, ⟨.opening .round, "(", default⟩,
      ⟨.identifier, "b", default⟩, ⟨.sign .plus, "+", default⟩, ⟨.identifier, "c", default⟩,
      ⟨.closing .round, ")", default⟩]
    let stop : Token := .endAt (.ofOffset 9 "BUILD")
    e.Printable ∧ ts.map Token.word = e.words ∧
      ∃ e' r', expression .standard .lowest (Reader.start (ts ++ [stop]) "BUILD") = .ok e' r' ∧
        e'.bare = e.bare ∧ r'.ahead = [stop] :=
  ⟨by decide +kernel, by decide +kernel,
    expression_words (by decide +kernel) (by decide +kernel) rfl "BUILD"⟩

end Expr

end BuildTyping
