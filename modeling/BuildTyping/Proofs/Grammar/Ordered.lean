import BuildTyping.Proofs.Grammar.Ensures
import BuildTyping.Proofs.Grammar.Table
import BuildTyping.Proofs.Grammar.Turns
import BuildTyping.Proofs.Syntax.Ranks

/-!
# Expressions keep to the precedence of their operators

Without round brackets ahead an expression ends before the first token that binds no more tightly
than it has to, and reaches over all that it could: so each operand stands where it needs no
brackets. Only `not` is read as an operand wherever an operand may begin.
-/

namespace BuildTyping

namespace Reader

/-- No round bracket opens ahead. -/
def Unbracketed (r : Reader) : Prop := ∀ t ∈ r.ahead, t.kind ≠ .opening .round

instance (r : Reader) : Decidable r.Unbracketed :=
  inferInstanceAs (Decidable (∀ t ∈ r.ahead, t.kind ≠ .opening .round))

variable {r r' : Reader} {ts : List Token}

theorem Unbracketed.current (h : r.Unbracketed) : r.current.kind ≠ .opening .round :=
  h r.current List.mem_cons_self

theorem Unbracketed.passes (h : r.Unbracketed) (hp : r.Passes ts r') : r'.Unbracketed :=
  fun t ht => h t (by rw [hp.ahead]; exact List.mem_append_right ts ht)

theorem Unbracketed.next (h : r.Unbracketed) : r.next.Unbracketed := by
  intro t ht
  apply h t
  unfold Reader.next at ht
  split at ht
  · exact ht
  · rename_i u us hu
    simp only [ahead, hu] at ht ⊢
    exact List.mem_cons_of_mem _ ht

end Reader

namespace Precedence

variable {p level : Precedence}

/-- What reaches as far as a binary operator binds as tightly, and so on for each place. -/
theorem le_of_le_reach (hp : p ≤ multiplicative) (h : p ≤ level.reach) : p ≤ level := by
  have hall : ∀ p ∈ all, ∀ q ∈ all, p ≤ multiplicative → p ≤ q.reach → p ≤ q := by decide
  exact hall p (mem_all p) level (mem_all level) hp h

theorem power_lt_of_le_reach (h : power ≤ level.reach) : power < level := by
  cases level <;> first | exact absurd h (by decide) | decide

theorem conditional_lt_of_le_reach (h : conditional ≤ level.reach) : conditional < level := by
  cases level <;> first | exact absurd h (by decide) | decide

theorem lt_or_eq_of_admits (hp : p ≤ multiplicative) (h : p.Admits level) :
    p < level ∨ level = negation := by
  rcases h with h | h | h
  · exact .inl h
  · exact .inr h
  · exact .inl (h ▸ lt_of_lt_of_le (Nat.lt_succ_of_le hp) (Nat.le_refl _))

theorem unary_le_or_eq_of_admits (h : unary.Admits level) : unary ≤ level ∨ level = negation := by
  rcases h with h | h | h
  · exact .inl (le_of_lt h)
  · exact .inr h
  · exact .inl (h ▸ Nat.le_refl _)

end Precedence

theorem BinaryOp.precedence_le_multiplicative {op : BinaryOp} (h : op ≠ .power) :
    op.precedence ≤ .multiplicative := by
  cases op <;> first | exact absurd rfl h | decide

namespace Parse

open Reader

/-- An expression that is read where all must bind more tightly than `p`. -/
structure Settled (p : Precedence) (e : Expr) (r' : Reader) : Prop where
  ordered : e.Ordered Expr.isNot
  admits : p < .primary → p.Admits e.level
  stops : Grammar.standard.precedence r'.current.kind ≤ p

/-- An expression that is read so far as it reaches, and may be the left operand of what is next. -/
structure Standing (p : Precedence) (e : Expr) (r' : Reader) : Prop where
  ordered : e.Ordered Expr.isNot
  admits : p < .primary → p.Admits e.level
  behind : Grammar.standard.precedence r'.current.kind ≤ e.level.reach

variable {α : Type} {sub : Precedence → Parse Expr} {r : Reader}

/-- The parts of what a success gives are in order. -/
def Orders (x : Parse α) (parts : α → List Expr) : Prop :=
  ∀ r, r.Unbracketed → Ensures x r fun _ a _ => ∀ e ∈ parts a, e.Ordered Expr.isNot

/-- What is taken of the reader of parts. -/
def Settles (sub : Precedence → Parse Expr) : Prop :=
  ∀ p r, r.Unbracketed → Ensures (sub p) r fun _ e r' => Settled p e r'

theorem Settles.orders (hsub : Settles sub) (p : Precedence) : Orders (sub p) fun e => [e] :=
  fun r hr => (hsub p r hr).mono fun _ _ _ _ h => by simpa using h.ordered

theorem Orders.many {item : Parse (Option α)} {parts : α → List Expr}
    (h : Orders item fun o => o.elim [] parts) : Orders (many item) fun as => as.flatMap parts := by
  intro r hr
  refine .many (P := fun _ as => ∀ e ∈ as.flatMap parts, e.Ordered Expr.isNot) (by simp) ?_
  intro us mid hp
  refine (h mid (hr.passes hp)).mono fun ts o _ _ ho => ?_
  cases o with
  | none => simp
  | some a =>
    intro vs as has
    rw [List.flatMap_cons]
    exact List.forall_mem_append.2 ⟨ho, has⟩

theorem Orders.some {x : Parse α} {parts : α → List Expr} (h : Orders x parts) :
    Orders (some <$> x) fun o => o.elim [] parts := fun r hr => .map (h r hr)

theorem commaTurn_orders (hsub : Settles sub) (p : Precedence) :
    Orders (commaTurn .standard sub p) fun o => o.elim [] fun e => [e] := by
  intro r hr
  refine .kind ?_
  split
  · rename_i hk
    refine .advance (by simp [hk]) ?_
    rw [atStart, bind_assoc]
    refine .kind ?_
    rw [pure_bind]
    split
    · exact (hsub.orders p).some _ hr.next
    · exact .pure (by simp)
  · exact .pure (by simp)

theorem commaList_orders (hsub : Settles sub) (p : Precedence) :
    Orders (commaList .standard sub p) fun e => [e] := by
  intro r hr
  refine (hsub p r hr).bind fun ts first mid hp hfirst => .kind ?_
  split
  · refine ((commaTurn_orders hsub p).many mid (hr.passes hp)).bind fun us others _ _ hothers => ?_
    refine .spanFrom (.node ?_)
    have hparts : ∀ e ∈ others, e.Ordered Expr.isNot := by simpa using hothers
    simpa [Expr.ordered_mk, Expr.Ranks, Shape.parts] using ⟨hfirst.ordered, hparts⟩
  · exact .pure (by simpa using hfirst.ordered)

/-- What is closed by a bracket reaches over everything. -/
theorem standing_primary {p : Precedence} {id : Nat} {span : Span} {shape : Shape Expr}
    {r' : Reader} (hranks : Expr.Ranks Expr.isNot ⟨id, span, shape⟩)
    (hparts : ∀ part ∈ shape.parts, part.Ordered Expr.isNot) (hlevel : shape.level = .primary) :
    Standing p ⟨id, span, shape⟩ r' where
  ordered := Expr.ordered_mk.2 ⟨hranks, hparts⟩
  admits hp := .inl (by rwa [Expr.level, hlevel])
  behind := by
    rw [Expr.level, hlevel]
    exact Precedence.le_primary _

theorem atom_stands (p : Precedence) (r : Reader) :
    Ensures atom r fun _ e r' => Standing p e r' := by
  have leaf (hk : r.current.kind ≠ .endOfSource) (shape : Shape Expr)
      (hparts : shape.parts = []) (hlevel : shape.level = .primary)
      (hranks : ∀ id span, Expr.Ranks Expr.isNot ⟨id, span, shape⟩) :
      Ensures (advance >>= fun _ => node r.current.span shape) r fun _ e r' => Standing p e r' :=
    .advance hk (.node (standing_primary (hranks _ _) (by simp [hparts]) hlevel))
  refine .get ?_
  simp only
  split
  case h_1 hk =>
    cases Integer.read? r.current.value.toList with
    | some n => exact leaf (by simp [hk]) _ rfl rfl fun _ _ => trivial
    | none => exact .throw _
  case h_2 hk =>
    cases Binary64.read? r.current.value.toList with
    | some x => exact leaf (by simp [hk]) _ rfl rfl fun _ _ => trivial
    | none => exact .throw _
  case h_8 => exact .unmet _
  all_goals
    rename_i hk
    exact leaf (by simp [hk]) _ rfl rfl fun _ _ => trivial

/-- The operand of a prefix operator is read whole. -/
theorem unary_stands (hsub : Settles sub) (p : Precedence) (hr : r.Unbracketed) {op : UnaryOp}
    (hk : r.current.kind = op.word.kind) :
    Ensures (unary sub) r fun _ e r' => Standing p e r' := by
  refine .advance (by rw [hk]; cases op <;> simp [UnaryOp.word, Word.sign, Word.keyword]) ?_
  rw [hk, op.ofKind?_word]
  refine (hsub _ _ hr.next).bind fun us operand r' _ h => .node ?_
  have hparts : ∀ part ∈ (Shape.unary op operand).parts, part.Ordered Expr.isNot := by
    simpa [Shape.parts] using h.ordered
  have hadmits := h.admits (by cases op <;> decide)
  refine ⟨Expr.ordered_mk.2 ⟨?_, hparts⟩, fun _ => ?_, ?_⟩
  · cases op with
    | not_ =>
      rcases hadmits with hlt | heq | heq
      · exact Precedence.le_of_lt hlt
      · exact Nat.le_of_eq (congrArg Precedence.rank heq.symm)
      · exact Nat.le_trans (by decide) (Nat.le_of_eq (congrArg Precedence.rank heq.symm))
    | negate | plus | invert =>
      exact (Precedence.unary_le_or_eq_of_admits hadmits).imp_right Expr.isNot_of_level
  · cases op <;> simp [Precedence.Admits, Expr.level, Shape.level, operandPrecedence]
  · have hreach := Precedence.reach_operandPrecedence op
    simpa [Expr.level, Shape.level, hreach] using h.stops

theorem clauseTurn_orders (hsub : Settles sub) :
    Orders (clauseTurn .standard sub) fun o => o.elim [] Clause.parts := by
  intro r hr
  refine .kind ?_
  split
  · rename_i hk
    refine .advance (by simp [hk]) ?_
    refine (commaList_orders hsub _ _ hr.next).bind fun us target mid hp htarget => ?_
    have hmid := hr.next.passes hp
    refine .expect (by simp) fun hin => ?_
    refine (hsub.orders _ _ hmid.next).bind fun vs iterable _ _ hiterable => .pure ?_
    exact List.forall_mem_append.2 ⟨htarget, hiterable⟩
  · rename_i hk
    refine .advance (by simp [hk]) ?_
    exact (hsub.orders _ _ hr.next).bind fun us condition _ _ hcondition => .pure hcondition
  · exact .pure (by simp)

theorem itemTurn_orders (bracket : Bracket) {item : Parse α} {parts : α → List Expr}
    (hitem : Orders item parts) : Orders (itemTurn bracket item) fun o => o.elim [] parts := by
  intro r hr
  refine .kind ?_
  split
  · rename_i hk
    refine .advance (by simp [hk]) (.kind ?_)
    split
    · exact .pure (by simp)
    · exact hitem.some _ hr.next
  · exact .pure (by simp)

theorem bracketed_stands (hsub : Settles sub) (p : Precedence) (hr : r.Unbracketed)
    {bracket : Bracket} {item : Parse α} {parts : α → List Expr} (hitem : Orders item parts)
    {collect : List α → Shape Expr} (hcollect : ∀ as, (collect as).parts = as.flatMap parts)
    {comprehend : α → List (Clause Expr) → Shape Expr}
    (hcomprehend : ∀ a cs, (comprehend a cs).parts = parts a ++ cs.flatMap Clause.parts)
    (hranks : ∀ id span, (∀ as, Expr.Ranks Expr.isNot ⟨id, span, collect as⟩) ∧
      ∀ a cs, Expr.Ranks Expr.isNot ⟨id, span, comprehend a cs⟩)
    (hlevel : (∀ as, (collect as).level = .primary) ∧ ∀ a cs, (comprehend a cs).level = .primary)
    (hk : r.current.kind = .opening bracket) :
    Ensures (bracketed .standard sub bracket item collect comprehend) r
      fun _ e r' => Standing p e r' := by
  have close (start : Position) (mid : Reader) {shape : Shape Expr}
      (hranks : ∀ id span, Expr.Ranks Expr.isNot ⟨id, span, shape⟩)
      (hparts : ∀ part ∈ shape.parts, part.Ordered Expr.isNot) (hlevel : shape.level = .primary) :
      Ensures (expect (.closing bracket) >>= fun _ => spanFrom start >>= fun span =>
        node span shape) mid fun _ e r' => Standing p e r' :=
    .expect (by simp) fun _ => .spanFrom (.node (standing_primary (hranks _ _) hparts hlevel))
  refine .advance (by simp [hk]) (.kind ?_)
  split
  · exact close _ _ (fun id span => (hranks id span).1 []) (by simp [hcollect]) (hlevel.1 [])
  · refine (hitem _ hr.next).bind fun us first mid hp hfirst => .kind ?_
    have hmid := hr.next.passes hp
    split
    · refine ((clauseTurn_orders hsub).many _ hmid).bind fun vs cs _ _ hcs => ?_
      refine close _ _ (fun id span => (hranks id span).2 first cs) ?_ (hlevel.2 first cs)
      rw [hcomprehend]
      exact List.forall_mem_append.2 ⟨hfirst, hcs⟩
    · refine ((itemTurn_orders bracket hitem).many _ hmid).bind fun vs others _ _ hothers => ?_
      refine close _ _ (fun id span => (hranks id span).1 (first :: others)) ?_ (hlevel.1 _)
      rw [hcollect]
      exact List.forall_mem_append.2 ⟨hfirst, hothers⟩

theorem entry_orders (hsub : Settles sub) : Orders (entry sub) Entry.parts := by
  intro r hr
  refine (hsub.orders _ r hr).bind fun us key mid hp hkey => ?_
  refine .expectFor (by simp) fun hc => ?_
  refine (hsub.orders _ _ (hr.passes hp).next).bind fun vs value _ _ hvalue => .pure ?_
  exact List.forall_mem_append.2 ⟨hkey, hvalue⟩

theorem startWith_stands (hsub : Settles sub) (p : Precedence) (hr : r.Unbracketed)
    {rule : StartRule} (h : Grammar.standard.starts r.current.kind = some rule) :
    Ensures (startWith .standard sub rule) r fun _ e r' => Standing p e r' := by
  generalize hk : r.current.kind = kind at h
  cases Grammar.begins_of_starts h with
  | atom => exact atom_stands p r
  | unary op => exact unary_stands hsub p hr hk
  | group => exact absurd hk hr.current
  | list =>
    exact bracketed_stands hsub p hr (hsub.orders _) (fun as => by simp [Shape.parts])
      (fun a cs => by simp [Shape.parts]) (fun _ _ => ⟨fun _ => trivial, fun _ _ => trivial⟩)
      ⟨fun _ => rfl, fun _ _ => rfl⟩ hk
  | dict =>
    exact bracketed_stands hsub p hr (entry_orders hsub) (fun as => by simp [Shape.parts])
      (fun a cs => by simp [Shape.parts]) (fun _ _ => ⟨fun _ => trivial, fun _ _ => trivial⟩)
      ⟨fun _ => rfl, fun _ _ => rfl⟩ hk

section Continue

variable {left : Expr} {least : Precedence}

/-- The right operand of an operator is read where all must bind more tightly. -/
theorem binaryNode_stands (hsub : Settles sub) (hr : r.Unbracketed) (op : BinaryOp)
    (hp : op ≠ .power) (hleft : left.Ordered Expr.isNot)
    (hreach : op.precedence ≤ left.level.reach) (hlt : least < op.precedence) :
    Ensures (sub op.precedence >>= fun right => binaryNode op left right) r
      fun _ e r' => Standing least e r' := by
  have hle := op.precedence_le_multiplicative hp
  refine (hsub _ r hr).bind fun us right r' _ h => .node ?_
  have hadmits := h.admits (Nat.lt_of_le_of_lt hle (by decide))
  refine ⟨Expr.ordered_mk.2 ⟨(Expr.ranks_binary hp).2 ⟨?_, ?_⟩, ?_⟩, fun _ => .inl hlt, ?_⟩
  · exact Precedence.le_of_le_reach hle hreach
  · exact (Precedence.lt_or_eq_of_admits hle hadmits).imp_right Expr.isNot_of_level
  · simpa [Shape.parts] using ⟨hleft, h.ordered⟩
  · rw [Expr.level, Shape.level, BinaryOp.reach_precedence hp]
    exact h.stops

theorem power_stands (hsub : Settles sub) (hr : r.Unbracketed) (hleft : left.Ordered Expr.isNot)
    (hreach : .power ≤ left.level.reach) (hlt : least < .power)
    (hk : r.current.kind = .sign .starStar) :
    Ensures (power sub left) r fun ts e r' => ts ≠ [] ∧ Standing least e r' := by
  refine .advance (by simp [hk]) ?_
  refine (hsub _ _ hr.next).bind fun us right r' _ h => .node ⟨by simp, ?_⟩
  refine ⟨Expr.ordered_mk.2 ⟨⟨?_, ?_⟩, ?_⟩, fun _ => .inl hlt, h.stops⟩
  · exact Precedence.power_lt_of_le_reach hreach
  · exact (Precedence.unary_le_or_eq_of_admits (h.admits (by decide))).imp_right
      Expr.isNot_of_level
  · simpa [Shape.parts] using ⟨hleft, h.ordered⟩

theorem conditional_stands (hsub : Settles sub) (hr : r.Unbracketed)
    (hleft : left.Ordered Expr.isNot) (hreach : .conditional ≤ left.level.reach)
    (hlt : least < .conditional) (hk : r.current.kind = .keyword .if_) :
    Ensures (conditional sub left) r fun ts e r' => ts ≠ [] ∧ Standing least e r' := by
  refine .advance (by simp [hk]) ?_
  refine (hsub _ _ hr.next).bind fun us condition mid hp h => ?_
  have hmid := hr.next.passes hp
  refine .expectFor (by simp) fun helse => ?_
  refine (hsub _ _ hmid.next).bind fun vs other r' _ h' => .node ⟨by simp, ?_⟩
  refine ⟨Expr.ordered_mk.2 ⟨⟨?_, ?_⟩, ?_⟩, fun _ => .inl hlt, h'.stops⟩
  · exact Precedence.conditional_lt_of_le_reach hreach
  · rcases h.admits (by decide) with hlevel | hlevel | hlevel
    · exact hlevel
    · exact hlevel ▸ by decide
    · exact hlevel ▸ by decide
  · simpa [Shape.parts] using ⟨hleft, h.ordered, h'.ordered⟩

/-- What ends in a bracket or a name reaches over everything. -/
theorem standing_call {id : Nat} {span : Span} {shape : Shape Expr} {r' : Reader}
    (hlt : least < .call) (hranks : Expr.Ranks Expr.isNot ⟨id, span, shape⟩)
    (hparts : ∀ part ∈ shape.parts, part.Ordered Expr.isNot) (hlevel : shape.level = .call) :
    Standing least ⟨id, span, shape⟩ r' where
  ordered := Expr.ordered_mk.2 ⟨hranks, hparts⟩
  admits _ := .inl (by rwa [Expr.level, hlevel])
  behind := by
    rw [Expr.level, hlevel]
    exact Precedence.le_primary _

theorem bound_orders (hsub : Settles sub) : Orders (bound sub) Option.toList := by
  intro r hr
  have present : Ensures (some <$> sub .lowest) r
      fun _ o _ => ∀ e ∈ o.toList, e.Ordered Expr.isNot := .map (hsub.orders _ r hr)
  refine .kind ?_
  split
  · exact .pure (by simp)
  · exact .pure (by simp)
  · exact present

/-- What ends in a square bracket, of parts in order. -/
def Subscripts (shape : Shape Expr) : Prop :=
  shape.level = .call ∧ (∀ id span, Expr.Ranks Expr.isNot ⟨id, span, shape⟩) ∧
    ∀ part ∈ shape.parts, part.Ordered Expr.isNot

theorem subscriptRest_orders (hsub : Settles sub) (hr : r.Unbracketed)
    (hleft : left.Ordered Expr.isNot) {lower : Option Expr}
    (hlower : ∀ e ∈ lower.toList, e.Ordered Expr.isNot) :
    Ensures (subscriptRest sub left lower) r fun _ shape _ => Subscripts shape := by
  have slice {upper step : Option Expr} (hupper : ∀ e ∈ upper.toList, e.Ordered Expr.isNot)
      (hstep : ∀ e ∈ step.toList, e.Ordered Expr.isNot) :
      Subscripts (.slice left lower upper step) :=
    ⟨rfl, fun _ _ => trivial, List.forall_mem_cons.2 ⟨hleft, List.forall_mem_append.2
      ⟨List.forall_mem_append.2 ⟨hlower, hupper⟩, hstep⟩⟩⟩
  refine .kind ?_
  split
  · rename_i hc
    refine .advance (by simp [hc]) ?_
    refine (bound_orders hsub _ hr.next).bind fun us upper mid hp hupper => .kind ?_
    have hmid := hr.next.passes hp
    split
    · rename_i hc'
      refine .advance (by simp [hc']) ?_
      exact (bound_orders hsub _ hmid.next).bind fun vs step _ _ hstep =>
        .pure (slice hupper hstep)
    · exact .pure (slice hupper (by simp))
  · cases lower with
    | none => exact .unmet _
    | some key =>
      have hkey : ∀ part ∈ [left, key], part.Ordered Expr.isNot :=
        List.forall_mem_cons.2 ⟨hleft, hlower⟩
      exact .pure ⟨rfl, fun _ _ => trivial, hkey⟩

theorem subscript_stands (hsub : Settles sub) (hr : r.Unbracketed)
    (hleft : left.Ordered Expr.isNot) (hlt : least < .call)
    (hk : r.current.kind = .opening .square) :
    Ensures (subscript .standard sub left) r fun ts e r' => ts ≠ [] ∧ Standing least e r' := by
  have hshape {r : Reader} (hr : r.Unbracketed) : Ensures (subscriptShape .standard sub left) r
      fun _ shape _ => Subscripts shape := by
    refine .kind ?_
    split
    · exact subscriptRest_orders hsub hr hleft (by simp)
    · refine (commaList_orders hsub _ r hr).bind fun us key mid hp hkey => ?_
      exact subscriptRest_orders hsub (hr.passes hp) hleft hkey
  refine .advance (by simp [hk]) ?_
  refine (hshape hr.next).bind fun us shape _ _ ⟨hlevel, hranks, hparts⟩ => ?_
  refine .expect (by simp) fun hc => .spanFrom (.node ⟨by simp, ?_⟩)
  exact standing_call hlt (hranks _ _) hparts hlevel

theorem member_stands (hleft : left.Ordered Expr.isNot) (hlt : least < .call)
    (hk : r.current.kind = .sign .dot) :
    Ensures (member left) r fun ts e r' => ts ≠ [] ∧ Standing least e r' := by
  refine .advance (by simp [hk]) (.expectFor (by simp) fun hn => .spanFrom (.node ⟨by simp, ?_⟩))
  exact standing_call hlt trivial (by simpa [Shape.parts] using hleft) rfl

/-- An expression goes on at a token that it reaches. -/
theorem continueWith_stands (hsub : Settles sub) (hr : r.Unbracketed)
    (hleft : left.Ordered Expr.isNot)
    (hreach : Grammar.standard.precedence r.current.kind ≤ left.level.reach) {p : Precedence}
    {rule : ContinueRule} (hlt : least < p)
    (h : Grammar.standard.continues r.current.kind = some (p, rule)) :
    Ensures (continueWith .standard sub left p rule) r
      fun ts e r' => ts ≠ [] ∧ Standing least e r' := by
  rw [Grammar.precedence, h] at hreach
  generalize hk : r.current.kind = kind at h
  cases Grammar.goesOn_of_continues h with
  | binary op hp hn =>
    refine .advance (by rw [hk]; cases op <;> simp [BinaryOp.word, Word.sign, Word.keyword]) ?_
    rw [hk, BinaryOp.ofKind?_word hn]
    refine (binaryNode_stands hsub hr.next op hp hleft hreach hlt).mono fun us e r' _ he => ?_
    exact ⟨by simp, he⟩
  | power => exact power_stands hsub hr hleft hreach hlt hk
  | notIn =>
    refine .advance (by simp [hk]) (.expectFor (by simp) fun hin => ?_)
    have hnode := binaryNode_stands hsub hr.next.next .notIn (by decide) hleft hreach hlt
    exact hnode.mono fun us e r' _ he => ⟨by simp, he⟩
  | conditional => exact conditional_stands hsub hr hleft hreach hlt hk
  | call => exact absurd hk hr.current
  | subscript => exact subscript_stands hsub hr hleft hlt hk
  | member => exact member_stands hleft hlt hk

theorem extend_stands (hsub : Settles sub) (hr : r.Unbracketed) (h : Standing least left r) :
    Ensures (extend .standard sub least left) r fun ts o r' =>
      o.elim (Settled least left r') fun e => ts ≠ [] ∧ Standing least e r' := by
  refine .kind ?_
  cases hc : Grammar.standard.continues r.current.kind with
  | none =>
    refine .pure ⟨h.ordered, h.admits, ?_⟩
    rw [Grammar.precedence, hc]
    exact Precedence.lowest_le least
  | some found =>
    obtain ⟨p, rule⟩ := found
    simp only
    split
    · rename_i hlt
      exact .map (continueWith_stands hsub hr h.ordered h.behind hlt hc)
    · rename_i hge
      refine .pure ⟨h.ordered, h.admits, ?_⟩
      rw [Grammar.precedence, hc]
      exact Precedence.not_lt.1 hge

end Continue

theorem expressionOf_settles (hsub : Settles sub) : Settles (expressionOf .standard sub) := by
  intro least r hr
  refine .kind ?_
  cases hs : Grammar.standard.starts r.current.kind with
  | none => exact .unmet _
  | some rule =>
    refine (startWith_stands hsub least hr hs).bind fun ts first mid hp hfirst => ?_
    refine .iterate (I := fun _ e r' => Standing least e r') hfirst ?_
    intro us left mid' hp' hleft
    refine (extend_stands hsub ((hr.passes hp).passes hp') hleft).mono fun vs o r' _ ho => ?_
    cases o with
    | none => exact ho
    | some e => exact ⟨ho.2, fun hvs => absurd hvs ho.1⟩

theorem expression_settles : Settles (expression .standard) :=
  ensures_expression (I := Unbracketed) (Q := fun p _ e r' => Settled p e r')
    fun _ hsub => expressionOf_settles hsub

end Parse

namespace Expr

/-- From any place in any list of tokens without round brackets ahead, every operand of what is
read stands where it needs no brackets, but for `not` behind an operator. -/
theorem expression_ordered {r r' : Reader} {e : Expr} (hr : r.Ended) (hround : r.Unbracketed)
    (h : expression .standard .lowest r = .ok e r') : e.Ordered isNot := by
  obtain ⟨ts, -, hsettled⟩ := (Parse.expression_settles .lowest r hround).of_ok hr h
  exact hsettled.ordered

/-- In `-a ** -b * not c == d` the last operand of `*` is `not c == d`. -/
theorem expression_ordered_not :
    let ws : List Word := [.sign .minus, .name "a", .sign .starStar, .sign .minus, .name "b",
      .sign .star, .keyword .not_, .name "c", .sign .equal, .name "d"]
    let r := Reader.start (ws.map fun w => ⟨w.kind, w.text, default⟩) "BUILD"
    r.Ended ∧ r.Unbracketed ∧ ∃ e r', expression .standard .lowest r = .ok e r' ∧
      e.level = .multiplicative ∧ e.Ordered isNot := by
  intro ws r
  have hround : r.Unbracketed := by decide +kernel
  have hrun : (match expression .standard .lowest r with
      | .ok e _ => some e.level
      | .error _ _ => none) = some .multiplicative := by decide +kernel
  cases he : expression .standard .lowest r with
  | error fault r' => simp [he] at hrun
  | ok e r' =>
    rw [he] at hrun
    exact ⟨Reader.ended_start _ _, hround, e, r', rfl, Option.some.inj hrun,
      expression_ordered (Reader.ended_start _ _) hround he⟩

/-- In `a * not b` the last operand of `*` binds more loosely than `*`. -/
theorem expression_loose_not :
    let ws : List Word := [.name "a", .sign .star, .keyword .not_, .name "b"]
    let r := Reader.start (ws.map fun w => ⟨w.kind, w.text, default⟩) "BUILD"
    r.Ended ∧ r.Unbracketed ∧ ∃ e r', expression .standard .lowest r = .ok e r' ∧
      ¬ e.Ordered fun _ => false := by
  intro ws r
  have hrun : (match expression .standard .lowest r with
      | .ok e _ => decide (e.Ordered fun _ => false)
      | .error _ _ => true) = false := by decide +kernel
  cases he : expression .standard .lowest r with
  | error fault r' => simp [he] at hrun
  | ok e r' =>
    rw [he] at hrun
    exact ⟨Reader.ended_start _ _, by decide +kernel, e, r', rfl, of_decide_eq_false hrun⟩

end Expr

end BuildTyping
