import BuildTyping.Proofs.Grammar.Ensures
import BuildTyping.Proofs.Grammar.Table
import BuildTyping.Proofs.Grammar.Turns
import BuildTyping.Proofs.Syntax.Yield

/-!
# Expressions say what their tokens say

Reading an expression loses, repeats and reorders nothing: but for punctuation, the tokens that
the reader goes past are the yield of the expression.
-/

namespace BuildTyping

namespace Parse

variable {α : Type} {sub : Precedence → Parse Expr} {r : Reader}

/-- What a success gives says what the tokens say. -/
def Yields (x : Parse α) (yield : α → List Item) : Prop :=
  ∀ r, Ensures x r fun ts a _ => items ts = yield a

theorem Yields.many {item : Parse (Option α)} {yield : α → List Item}
    (h : Yields item fun o => o.elim [] yield) :
    Yields (many item) fun as => as.flatMap yield := by
  intro r
  refine .many (P := fun ts as => items ts = as.flatMap yield) rfl fun _ mid _ => ?_
  refine (h mid).mono fun ts o _ _ ho => ?_
  cases o with
  | none => exact ho
  | some a =>
    intro vs as has
    simp_all

theorem commaTurn_yields (hsub : ∀ p, Yields (sub p) Expr.yield) (p : Precedence) :
    Yields (commaTurn .standard sub p) fun o => o.elim [] Expr.yield := by
  intro r
  refine .kind ?_
  split
  · rename_i hk
    have hcomma := Token.items_of_punctuation hk rfl
    refine .advance (by simp [hk]) ?_
    rw [atStart, bind_assoc]
    refine .kind ?_
    rw [pure_bind]
    split
    · exact .map ((hsub p _).mono fun us e _ _ he => by simp [hcomma, he])
    · exact .pure (by simp [hcomma])
  · exact .pure rfl

theorem commaList_yields (hsub : ∀ p, Yields (sub p) Expr.yield) (p : Precedence) :
    Yields (commaList .standard sub p) Expr.yield := by
  intro r
  refine (hsub p r).bind fun ts first mid _ hfirst => ?_
  refine .kind ?_
  split
  · refine ((commaTurn_yields hsub p).many mid).bind fun us others _ _ hothers => ?_
    refine .spanFrom (.node ?_)
    simp [Expr.yield_mk, Shape.map, Shape.yield, hfirst, hothers, List.flatMap_def]
  · exact .pure (by simpa using hfirst)

theorem atom_yields : Yields atom Expr.yield := by
  intro r
  have leaf (shape : Shape Expr) (hk : r.current.kind ≠ .endOfSource)
      (h : r.current.items = (shape.map Expr.yield).yield) :
      Ensures (advance >>= fun _ => node r.current.span shape) r
        fun ts e _ => items ts = e.yield :=
    .advance hk (.node (by simp [Expr.yield_mk, h]))
  have literal (value : Literal) (hk : r.current.kind ≠ .endOfSource)
      (h : r.current.literal? = some value) :=
    leaf (.literal value) hk (Token.items_of_literal h)
  refine .get ?_
  simp only
  split
  case h_1 hk =>
    cases hn : Integer.read? r.current.value.toList with
    | some n => exact literal _ (by simp [hk]) (by simp [Token.literal?, hk, hn])
    | none => exact .throw _
  case h_2 hk =>
    cases hx : Binary64.read? r.current.value.toList with
    | some x => exact literal _ (by simp [hk]) (by simp [Token.literal?, hk, hx])
    | none => exact .throw _
  case h_3 hk | h_4 hk | h_5 hk | h_6 hk =>
    exact literal _ (by simp [hk]) (by simp [Token.literal?, hk])
  case h_7 hk => exact leaf _ (by simp [hk]) (Token.items_of_identifier hk)
  case h_8 => exact .unmet _

theorem unary_yields (hsub : ∀ p, Yields (sub p) Expr.yield) {op : UnaryOp}
    (hk : r.current.kind = op.word.kind) :
    Ensures (unary sub) r fun ts e _ => items ts = e.yield := by
  have hword : r.current.items = [.word op.word.kind] :=
    Token.items_of_word hk (by cases op <;> rfl)
  refine .advance (by rw [hk]; cases op <;> simp [UnaryOp.word, Word.sign, Word.keyword]) ?_
  rw [hk, op.ofKind?_word]
  refine (hsub _ _).bind fun us operand _ _ hoperand => .node ?_
  simp [Expr.yield_mk, Shape.map, Shape.yield, hword, hoperand]

theorem group_yields (hsub : ∀ p, Yields (sub p) Expr.yield)
    (hk : r.current.kind = .opening .round) :
    Ensures (group .standard sub) r fun ts e _ => items ts = e.yield := by
  have hopens := Token.items_of_punctuation hk rfl
  refine .advance (by simp [hk]) (.kind ?_)
  split
  · rename_i hc
    refine .advance (by simp [hc]) (.spanFrom (.node ?_))
    simp [Expr.yield_mk, Shape.map, Shape.yield, hopens, Token.items_of_punctuation hc rfl]
  · refine (commaList_yields hsub _ _).bind fun us inner mid _ hinner => ?_
    refine .expect (by simp) fun hc => .spanFrom (.pure ?_)
    simp [Expr.yield_eq, hopens, hinner, Token.items_of_punctuation hc rfl]

theorem clauseTurn_yields (hsub : ∀ p, Yields (sub p) Expr.yield) :
    Yields (clauseTurn .standard sub) fun o => o.elim [] fun c => (c.map Expr.yield).yield := by
  intro r
  refine .kind ?_
  cases hk : r.current.kind with
  | keyword word =>
    cases word with
    | for_ =>
      refine .advance (by simp [hk]) ?_
      refine (commaList_yields hsub _ _).bind fun us target mid _ htarget => ?_
      refine .expect (by simp) fun hin => ?_
      refine (hsub _ _).bind fun vs iterable _ _ hiterable => .pure ?_
      simp [Clause.map, Clause.yield, htarget, hiterable, Token.items_of_word hk rfl,
        Token.items_of_word hin rfl]
    | if_ =>
      refine .advance (by simp [hk]) ?_
      refine (hsub _ _).bind fun us condition _ _ hcondition => .pure ?_
      simp [Clause.map, Clause.yield, hcondition, Token.items_of_word hk rfl]
    | _ => exact .pure rfl
  | _ => exact .pure rfl

theorem itemTurn_yields (bracket : Bracket) {item : Parse α} {yield : α → List Item}
    (hitem : Yields item yield) : Yields (itemTurn bracket item) fun o => o.elim [] yield := by
  intro r
  refine .kind ?_
  split
  · rename_i hk
    have hcomma := Token.items_of_punctuation hk rfl
    refine .advance (by simp [hk]) (.kind ?_)
    split
    · exact .pure (by simp [hcomma])
    · exact .map ((hitem _).mono fun us a _ _ ha => by simp [hcomma, ha])
  · exact .pure rfl

theorem bracketed_yields (hsub : ∀ p, Yields (sub p) Expr.yield) {bracket : Bracket}
    {item : Parse α} {yield : α → List Item} (hitem : Yields item yield)
    {collect : List α → Shape Expr}
    (hcollect : ∀ as, ((collect as).map Expr.yield).yield = as.flatMap yield)
    {comprehend : α → List (Clause Expr) → Shape Expr}
    (hcomprehend : ∀ a cs, ((comprehend a cs).map Expr.yield).yield =
      yield a ++ cs.flatMap fun c => (c.map Expr.yield).yield)
    (hk : r.current.kind = .opening bracket) :
    Ensures (bracketed .standard sub bracket item collect comprehend) r
      fun ts e _ => items ts = e.yield := by
  have hopens := Token.items_of_punctuation hk rfl
  have close (start : Position) (shape : Shape Expr) (mid : Reader) :
      Ensures (expect (.closing bracket) >>= fun _ => spanFrom start >>= fun span =>
        node span shape) mid
        fun us e _ => items us = [] ∧ e.yield = (shape.map Expr.yield).yield := by
    refine .expect (by simp) fun hc => .spanFrom (.node ?_)
    simp [Expr.yield_mk, Token.items_of_punctuation hc rfl]
  refine .advance (by simp [hk]) (.kind ?_)
  split
  · refine (close _ _ _).mono fun us e _ _ ⟨hus, he⟩ => ?_
    simp [hopens, hus, he, hcollect]
  · refine (hitem _).bind fun us first mid _ hfirst => .kind ?_
    split
    · refine ((clauseTurn_yields hsub).many _).bind fun vs cs _ _ hcs => ?_
      refine (close _ _ _).mono fun ws e _ _ ⟨hws, he⟩ => ?_
      simp [hopens, hfirst, hcs, hws, he, hcomprehend]
    · refine ((itemTurn_yields bracket hitem).many _).bind fun vs others _ _ hothers => ?_
      refine (close _ _ _).mono fun ws e _ _ ⟨hws, he⟩ => ?_
      simp [hopens, hfirst, hothers, hws, he, hcollect]

theorem entry_yields (hsub : ∀ p, Yields (sub p) Expr.yield) :
    Yields (entry sub) fun entry => (entry.map Expr.yield).yield := by
  intro r
  refine (hsub _ r).bind fun us key mid _ hkey => ?_
  refine .expectFor (by simp) fun hc => ?_
  refine (hsub _ _).bind fun vs value _ _ hvalue => .pure ?_
  simp [Entry.map, Entry.yield, hkey, hvalue, Token.items_of_punctuation hc rfl]

theorem startWith_yields (hsub : ∀ p, Yields (sub p) Expr.yield) {rule : StartRule}
    (h : Grammar.standard.starts r.current.kind = some rule) :
    Ensures (startWith .standard sub rule) r fun ts e _ => items ts = e.yield := by
  generalize hk : r.current.kind = kind at h
  cases Grammar.begins_of_starts h with
  | atom => exact atom_yields r
  | unary op => exact unary_yields hsub hk
  | group => exact group_yields hsub hk
  | list =>
    refine bracketed_yields hsub (hsub _) (fun as => ?_) (fun a cs => ?_) hk
    · simp [Shape.map, Shape.yield, List.flatMap_def]
    · simp [Shape.map, Shape.yield, List.flatMap_map]
  | dict =>
    refine bracketed_yields hsub (entry_yields hsub) (fun as => ?_) (fun a cs => ?_) hk
    · simp [Shape.map, Shape.yield, List.flatMap_map]
    · simp [Shape.map, Shape.yield, List.flatMap_map]

section Continue

variable (left : Expr)

theorem binary_yields (hsub : ∀ p, Yields (sub p) Expr.yield) {op : BinaryOp} (hn : op ≠ .notIn)
    (hk : r.current.kind = op.word.kind) (p : Precedence) :
    Ensures (binary sub left p) r fun ts e _ => left.yield ++ items ts = e.yield := by
  have hword : r.current.items = op.items := by
    rw [Token.items_of_word hk (by cases op <;> rfl), BinaryOp.items, BinaryOp.words, if_neg hn]
    rfl
  refine .advance (by rw [hk]; cases op <;> simp [BinaryOp.word, Word.sign, Word.keyword]) ?_
  rw [hk, BinaryOp.ofKind?_word hn]
  refine (hsub _ _).bind fun us right _ _ hright => .node ?_
  simp [Expr.yield_mk, Shape.map, Shape.yield, hword, hright]

theorem power_yields (hsub : ∀ p, Yields (sub p) Expr.yield)
    (hk : r.current.kind = .sign .starStar) :
    Ensures (power sub left) r fun ts e _ => left.yield ++ items ts = e.yield := by
  refine .advance (by simp [hk]) ?_
  refine (hsub _ _).bind fun us right _ _ hright => .node ?_
  simp [Expr.yield_mk, Shape.map, Shape.yield, hright, Token.items_of_word hk rfl]
  rfl

theorem notIn_yields (hsub : ∀ p, Yields (sub p) Expr.yield) (hk : r.current.kind = .keyword .not_)
    (p : Precedence) :
    Ensures (notIn sub left p) r fun ts e _ => left.yield ++ items ts = e.yield := by
  refine .advance (by simp [hk]) (.expectFor (by simp) fun hin => ?_)
  refine (hsub _ _).bind fun us right _ _ hright => .node ?_
  simp [Expr.yield_mk, Shape.map, Shape.yield, hright, Token.items_of_word hk rfl,
    Token.items_of_word hin rfl]
  rfl

theorem conditional_yields (hsub : ∀ p, Yields (sub p) Expr.yield)
    (hk : r.current.kind = .keyword .if_) :
    Ensures (conditional sub left) r fun ts e _ => left.yield ++ items ts = e.yield := by
  refine .advance (by simp [hk]) ?_
  refine (hsub _ _).bind fun us condition _ _ hcondition => ?_
  refine .expectFor (by simp) fun helse => ?_
  refine (hsub _ _).bind fun vs other _ _ hother => .node ?_
  simp [Expr.yield_mk, Shape.map, Shape.yield, hcondition, hother, Token.items_of_word hk rfl,
    Token.items_of_word helse rfl]

theorem argument_yields (hsub : ∀ p, Yields (sub p) Expr.yield) :
    Yields (argument sub) fun a => (a.map Expr.yield).yield := by
  intro r
  have plain : Ensures (sub .lowest >>= fun e => pure (Argument.positional e)) r
      fun ts a _ => items ts = (a.map Expr.yield).yield :=
    (hsub _ r).bind fun us value _ _ hvalue => .pure (by simpa [Argument.map, Argument.yield])
  refine .get ?_
  cases hk : r.current.kind with
  | sign sign =>
    cases sign with
    | star | starStar =>
      refine .advance (by simp [hk]) ?_
      refine (hsub _ _).bind fun us value _ _ hvalue => .pure ?_
      simp [Argument.map, Argument.yield, hvalue, Token.items_of_word hk rfl]
    | _ => exact plain
  | identifier =>
    simp only
    split
    · rename_i hassign
      have hn := Reader.kind_next_of_peek hassign (by simp)
      refine .advance (by simp [hk]) (.advance (by simp [hn]) ?_)
      refine (hsub _ _).bind fun us value _ _ hvalue => .pure ?_
      simp [Argument.map, Argument.yield, hvalue, Token.items_of_identifier hk,
        Token.items_of_word hn rfl]
    · exact plain
  | _ => exact plain

theorem separator_yields (message : String) : Yields (separator message) fun _ => [] := by
  intro r
  refine .kind ?_
  simp only
  split
  · rename_i hk
    exact .advance (by simp [hk]) (.pure (by simp [Token.items_of_punctuation hk rfl]))
  · split
    · exact .unmet _
    · exact .pure rfl

theorem argumentTurn_yields (hsub : ∀ p, Yields (sub p) Expr.yield) :
    Yields (argumentTurn sub) fun o => o.elim [] fun a => (a.map Expr.yield).yield := by
  intro r
  refine .kind ?_
  split
  · exact .pure rfl
  · refine (argument_yields hsub r).bind fun us a mid _ ha => ?_
    refine (separator_yields _ mid).bind fun vs _ _ _ hs => .pure ?_
    simp [ha, hs]

theorem call_yields (hsub : ∀ p, Yields (sub p) Expr.yield)
    (hk : r.current.kind = .opening .round) :
    Ensures (call sub left) r fun ts e _ => left.yield ++ items ts = e.yield := by
  refine .advance (by simp [hk]) ?_
  refine ((argumentTurn_yields hsub).many _).bind fun us arguments _ _ harguments => ?_
  refine .expect (by simp) fun hc => .spanFrom (.node ?_)
  simp [Expr.yield_mk, Shape.map, Shape.yield, harguments, List.flatMap_map,
    Token.items_of_punctuation hk rfl, Token.items_of_punctuation hc rfl]

theorem bound_yields (hsub : ∀ p, Yields (sub p) Expr.yield) :
    Yields (bound sub) fun o => (o.map Expr.yield).getD [] := by
  intro r
  have present : Ensures (some <$> sub .lowest) r
      fun ts o _ => items ts = (o.map Expr.yield).getD [] := .map (hsub _ r)
  refine .kind ?_
  cases hk : r.current.kind with
  | sign sign => cases sign with
    | colon => exact .pure rfl
    | _ => exact present
  | closing bracket => cases bracket with
    | square => exact .pure rfl
    | _ => exact present
  | _ => exact present

theorem subscriptRest_yields (hsub : ∀ p, Yields (sub p) Expr.yield) (lower : Option Expr) :
    Ensures (subscriptRest sub left lower) r fun ts shape _ =>
      left.yield ++ ((lower.map Expr.yield).getD [] ++ items ts) =
        (shape.map Expr.yield).yield := by
  refine .kind ?_
  split
  · rename_i hc
    refine .advance (by simp [hc]) ?_
    refine (bound_yields hsub _).bind fun us upper mid _ hupper => .kind ?_
    split
    · rename_i hc'
      refine .advance (by simp [hc']) ?_
      refine (bound_yields hsub _).bind fun vs step _ _ hstep => .pure ?_
      simp [Shape.map, Shape.yield, hupper, hstep, Token.items_of_punctuation hc rfl,
        Token.items_of_punctuation hc' rfl]
    · exact .pure (by simp [Shape.map, Shape.yield, hupper, Token.items_of_punctuation hc rfl])
  · cases lower with
    | none => exact .unmet _
    | some key => exact .pure (by simp [Shape.map, Shape.yield])

theorem subscript_yields (hsub : ∀ p, Yields (sub p) Expr.yield)
    (hk : r.current.kind = .opening .square) :
    Ensures (subscript .standard sub left) r
      fun ts e _ => left.yield ++ items ts = e.yield := by
  have hshape (r : Reader) : Ensures (subscriptShape .standard sub left) r fun ts shape _ =>
      left.yield ++ items ts = (shape.map Expr.yield).yield := by
    refine .kind ?_
    split
    · exact subscriptRest_yields left hsub none
    · refine (commaList_yields hsub _ r).bind fun us key mid _ hkey => ?_
      refine (subscriptRest_yields left hsub (some key)).mono fun vs shape _ _ h => ?_
      simpa [hkey] using h
  refine .advance (by simp [hk]) ?_
  refine (hshape _).bind fun us shape _ _ hus => ?_
  refine .expect (by simp) fun hc => .spanFrom (.node ?_)
  simp [Expr.yield_mk, ← hus, Token.items_of_punctuation hk rfl,
    Token.items_of_punctuation hc rfl]

theorem member_yields (hk : r.current.kind = .sign .dot) :
    Ensures (member left) r fun ts e _ => left.yield ++ items ts = e.yield := by
  refine .advance (by simp [hk]) (.expectFor (by simp) fun hn => .spanFrom (.node ?_))
  simp [Expr.yield_mk, Shape.map, Shape.yield, Token.items_of_punctuation hk rfl,
    Token.items_of_identifier hn]

theorem continueWith_yields (hsub : ∀ p, Yields (sub p) Expr.yield) {p : Precedence}
    {rule : ContinueRule} (h : Grammar.standard.continues r.current.kind = some (p, rule)) :
    Ensures (continueWith .standard sub left p rule) r
      fun ts e _ => left.yield ++ items ts = e.yield := by
  generalize hk : r.current.kind = kind at h
  cases Grammar.goesOn_of_continues h with
  | binary op _ hn => exact binary_yields left hsub hn hk _
  | power => exact power_yields left hsub hk
  | notIn => exact notIn_yields left hsub hk _
  | conditional => exact conditional_yields left hsub hk
  | call => exact call_yields left hsub hk
  | subscript => exact subscript_yields left hsub hk
  | member => exact member_yields left hk

theorem extend_yields (hsub : ∀ p, Yields (sub p) Expr.yield) (least : Precedence) :
    Ensures (extend .standard sub least left) r fun ts o _ =>
      o.elim (ts = []) fun e => left.yield ++ items ts = e.yield := by
  refine .kind ?_
  cases hc : Grammar.standard.continues r.current.kind with
  | none => exact .pure rfl
  | some found =>
    obtain ⟨p, rule⟩ := found
    simp only
    split
    · exact .map (continueWith_yields left hsub hc)
    · exact .pure rfl

end Continue

theorem expressionOf_yields (hsub : ∀ p, Yields (sub p) Expr.yield) (least : Precedence) :
    Yields (expressionOf .standard sub least) Expr.yield := by
  intro r
  refine .kind ?_
  cases hs : Grammar.standard.starts r.current.kind with
  | none => exact .unmet _
  | some rule =>
    refine (startWith_yields hsub hs).bind fun ts first mid _ hfirst => ?_
    refine .iterate (I := fun us e _ => items (ts ++ us) = e.yield) (by simpa using hfirst) ?_
    intro us left mid' _ hleft
    refine (extend_yields left hsub least).mono fun vs o _ _ ho => ?_
    cases o with
    | none =>
      have hvs : vs = [] := ho
      simpa [hvs] using hleft
    | some e =>
      have he : items (ts ++ (us ++ vs)) = e.yield := by
        rw [← List.append_assoc, items_append, hleft, ho]
      exact ⟨he, fun _ => he⟩

theorem expression_yields (p : Precedence) : Yields (expression .standard p) Expr.yield :=
  fun r => ensures_expression (I := fun _ => True) (Q := fun _ ts e _ => items ts = e.yield)
    (fun _ hsub p r _ => expressionOf_yields (fun p r => hsub p r trivial) p r) p r trivial

end Parse

namespace Expr

/-- From any place in any list of tokens, what an expression list says is what the tokens say that
the reader goes past. -/
theorem exprList_yield {r r' : Reader} {e : Expr} (hr : r.Ended)
    (h : Parse.exprList .standard (expression .standard) r = .ok e r') :
    ∃ ts, r.Passes ts r' ∧ items ts = e.yield :=
  (Parse.commaList_yields Parse.expression_yields .lowest r).of_ok hr h

/-- A call, `not in`, a slice without an end, a float and a comma that makes a tuple. -/
theorem exprList_yield_notIn :
    let ws : List Word := [.name "f", .opening .round, .name "k", .sign .assign, .sign .minus,
      ⟨.int, "0x1F"⟩, .sign .comma, .sign .starStar, .name "m", .closing .round,
      .keyword .not_, .keyword .in_, .name "a", .opening .square, ⟨.int, "1"⟩, .sign .colon,
      .closing .square, .sign .dot, .name "b", .sign .slash, ⟨.float, "2.5e-1"⟩, .sign .comma,
      ⟨.newline, ""⟩]
    let r := Reader.start (ws.map fun w => ⟨w.kind, w.text, default⟩) "BUILD"
    ∃ e r', Parse.exprList .standard (expression .standard) r = .ok e r' ∧
      (∃ ts, r.Passes ts r' ∧ items ts = e.yield) ∧
      e.yield = [.name "f", .name "k", .word (.sign .assign), .word (.sign .minus),
        .literal (.int 31), .word (.sign .starStar), .name "m", .word (.keyword .not_),
        .word (.keyword .in_), .name "a", .literal (.int 1), .name "b", .word (.sign .slash),
        .literal (.float ⟨0x3FD0000000000000⟩)] := by
  intro ws r
  have hrun : (match Parse.exprList .standard (expression .standard) r with
      | .ok e _ => some e.yield
      | .error _ _ => none) = some [.name "f", .name "k", .word (.sign .assign),
        .word (.sign .minus), .literal (.int 31), .word (.sign .starStar), .name "m",
        .word (.keyword .not_), .word (.keyword .in_), .name "a", .literal (.int 1), .name "b",
        .word (.sign .slash), .literal (.float ⟨0x3FD0000000000000⟩)] := by
    decide +kernel
  cases he : Parse.exprList .standard (expression .standard) r with
  | error fault r' => simp [he] at hrun
  | ok e r' =>
    rw [he] at hrun
    exact ⟨e, r', rfl, exprList_yield (Reader.ended_start _ _) he, Option.some.inj hrun⟩

end Expr

end BuildTyping
