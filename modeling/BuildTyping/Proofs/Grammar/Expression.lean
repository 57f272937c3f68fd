import BuildTyping.Grammar.Expression
import BuildTyping.Proofs.Grammar.Run
import BuildTyping.Proofs.Grammar.Tree

/-!
# Expressions are read as trees

Each rule reads, from consecutive tokens, one tree with the parts of its expression. The rules
take this of the reader of their parts, and the whole follows by induction on what is left.
-/

namespace BuildTyping

/-- No rule of the grammar begins at a token without text. -/
structure Grammar.Solid (g : Grammar) : Prop where
  starts : ∀ {kind}, (g.starts kind).isSome = true → kind.isSolid = true
  continues : ∀ {kind}, (g.continues kind).isSome = true → kind.isSolid = true
  statements : ∀ {kind}, (g.statements kind).isSome = true → kind.isSolid = true

theorem Grammar.standard_solid : Grammar.standard.Solid where
  starts {kind} h := by
    cases kind <;> simp_all [standard, standardStarts, TokenKind.isSolid]
  continues {kind} h := by
    cases kind <;> simp_all [standard, standardContinues, TokenKind.isSolid]
  statements {kind} h := by
    cases kind <;> simp_all [standard, standardStatements, TokenKind.isSolid]

namespace Parse

open Reader

variable {α β : Type}

/-- A success goes past one tree. -/
def Reads (x : Parse Expr) : Prop :=
  ∀ ⦃r e r'⦄, r.Ended → x r = .ok e r' → r.Gathers [] [e] r'

/-- A success goes past the trees of some parts and past solid tokens, at least one where it
must. -/
def Collects (x : Parse α) (parts : α → List Expr) (must : Reader → Prop) : Prop :=
  ∀ ⦃r a r'⦄, r.Ended → x r = .ok a r' → ∃ own, (∀ t ∈ own, t.kind.isSolid = true) ∧
    (must r → own ≠ []) ∧ r.Gathers own (parts a) r'

theorem Collects.many {item : Parse (Option α)} {parts : α → List Expr} {must : Reader → Prop}
    (h : Collects item (fun o => o.elim [] parts) must) :
    Collects (many item) (fun as => as.flatMap parts) must := by
  intro r as r' hr hmany
  refine many_induction (P := fun r as r' => r.Ended → ∃ own, (∀ t ∈ own, t.kind.isSolid = true) ∧
    (must r → own ≠ []) ∧ r.Gathers own (as.flatMap parts) r') ?_ ?_ ?_ hmany hr
  · intro r r' hi hr
    exact h hr hi
  · intro r a r' hi hr
    simpa using h hr hi
  · intro r a mid as r' hi ih hr
    obtain ⟨own, hsolid, hmust, hg⟩ := h hr hi
    obtain ⟨own', hsolid', -, hg'⟩ := ih (hg.ended hr)
    refine ⟨own ++ own', List.forall_mem_append.2 ⟨hsolid, hsolid'⟩, ?_, hg.trans hg'⟩
    intro hm
    simp [hmust hm]

variable {g : Grammar} {sub : Precedence → Parse Expr}

theorem commaList_reads (hsub : ∀ p, Reads (sub p)) (p : Precedence) :
    Reads (commaList g sub p) := by
  have hitem : Collects (do
      if (← kind) = .sign .comma then
        let _ ← advance
        if ← atStart g then some <$> sub p else return none
      else return none) (fun o => o.elim [] fun e => [e])
      (fun r => r.current.kind = .sign .comma) := by
    intro r o r' hr h
    rw [kind_bind_run] at h
    split at h
    · rename_i hk
      have hn := Gathers.next hr (by simp [hk])
      rw [advance_bind_run, atStart, bind_assoc, kind_bind_run] at h
      refine ⟨[r.current], by simp [hk], by simp, ?_⟩
      simp only [pure_bind_run] at h
      split at h
      · obtain ⟨e, he, rfl⟩ := map_ok.1 h
        exact hn.trans (hsub p (hn.ended hr) he)
      · cases h
        exact hn
    · rename_i hk
      cases h
      exact ⟨[], by simp, fun h => absurd h hk, .refl r⟩
  intro r e r' hr h
  rw [commaList, bind_ok] at h
  obtain ⟨first, mid, hfirst, h⟩ := h
  have h1 := hsub p hr hfirst
  rw [kind_bind_run] at h
  split at h
  · rename_i hk
    rw [bind_ok] at h
    obtain ⟨others, last, hmany, h⟩ := h
    rw [spanFrom_bind_run, node_run] at h
    cases h
    obtain ⟨own, hsolid, hne, h2⟩ := hitem.many (h1.ended hr) hmany
    rw [h1.span_start]
    have h3 : r.Gathers own (Shape.tuple (first :: others)).parts last := by
      simpa [Shape.parts] using h1.trans h2
    exact h3.node (hne hk) hsolid rfl
  · cases h
    exact h1

theorem atom_reads : Reads atom := by
  intro r e r' hr h
  have leaf (hk : r.current.kind.isSolid = true) {shape : Shape Expr} (hs : shape.parts = [])
      (h : (advance >>= fun _ => node r.current.span shape) r = .ok e r') :
      r.Gathers [] [e] r' := by
    have hp := passes_next hr (TokenKind.ne_endOfSource_of_isSolid hk)
    have hn := Gathers.next hr (TokenKind.ne_endOfSource_of_isSolid hk)
    rw [advance_bind_run, node_run] at h
    cases h
    rw [← hs] at hn
    exact hn.node (by simp) (by simpa using hk) (hp.spanFrom (by simp)).symm
  rw [atom, get_bind_run] at h
  cases hk : r.current.kind with
  | int =>
    simp only [hk] at h
    cases hn : Integer.read? r.current.value.toList with
    | some n =>
      simp only [hn] at h
      exact leaf (by simp [hk]) rfl h
    | none => simp [hn, throw_run] at h
  | float =>
    simp only [hk] at h
    cases hx : Binary64.read? r.current.value.toList with
    | some x =>
      simp only [hx] at h
      exact leaf (by simp [hk]) rfl h
    | none => simp [hx, throw_run] at h
  | string | identifier =>
    simp only [hk] at h
    exact leaf (by simp [hk]) rfl h
  | keyword word =>
    cases word with
    | true_ | false_ | none_ =>
      simp only [hk] at h
      exact leaf (by simp [hk]) rfl h
    | _ => simp [hk, unmet_run] at h
  | _ => simp [hk, unmet_run] at h

theorem unary_reads (hsub : ∀ p, Reads (sub p)) : Reads (unary sub) := by
  intro r e r' hr h
  rw [unary, advance_bind_run] at h
  cases hop : UnaryOp.ofKind? r.current.kind with
  | none => simp [hop, unexpected, throw_run] at h
  | some op =>
    have hk : r.current.kind.isSolid = true := by
      generalize r.current.kind = kind at hop
      cases kind <;> simp_all [UnaryOp.ofKind?, TokenKind.isSolid]
    have h1 := Gathers.next hr (TokenKind.ne_endOfSource_of_isSolid hk)
    simp only [hop] at h
    obtain ⟨operand, last, hsome, h⟩ := bind_ok.1 h
    have h2 := hsub _ (h1.ended hr) hsome
    rw [node_run] at h
    cases h
    have h3 : r.Gathers [r.current] (Shape.unary op operand).parts last := h1.trans h2
    exact h3.node (by simp) (by simpa using hk) (h2.span_stop _).symm

theorem group_reads (hsub : ∀ p, Reads (sub p)) {r r' : Reader} {e : Expr} (hr : r.Ended)
    (hk : r.current.kind.isSolid = true) (h : group g sub r = .ok e r') :
    r.Gathers [] [e] r' := by
  have h1 := Gathers.next hr (TokenKind.ne_endOfSource_of_isSolid hk)
  rw [group, advance_bind_run, kind_bind_run] at h
  split at h
  · rename_i hc
    have h2 := Gathers.next (h1.ended hr) (by simp [hc])
    rw [advance_bind_run, spanFrom_bind_run, node_run] at h
    cases h
    have h3 : r.Gathers [r.current, r.next.current] (Shape.tuple []).parts r.next.next :=
      h1.trans h2
    exact h3.node (by simp) (by simp [hk, hc]) rfl
  · obtain ⟨inner, last, hinner, h⟩ := bind_ok.1 h
    obtain ⟨u, after, hu, h⟩ := bind_ok.1 h
    obtain ⟨hc, rfl, rfl⟩ := expect_ok.1 hu
    rw [spanFrom_bind_run, pure_run] at h
    cases h
    exact (commaList_reads hsub _ (h1.ended hr) hinner).group hr hk (by simp [hc])

theorem targetList_reads (hsub : ∀ p, Reads (sub p)) : Reads (targetList g sub) :=
  commaList_reads hsub _

theorem exprList_reads (hsub : ∀ p, Reads (sub p)) : Reads (exprList g sub) :=
  commaList_reads hsub _

theorem clauses_collects (hsub : ∀ p, Reads (sub p)) :
    Collects (clauses g sub) (fun cs => cs.flatMap Clause.parts) fun _ => False := by
  refine Collects.many ?_
  intro r o r' hr h
  rw [kind_bind_run] at h
  have skip (hk : r.current.kind.isSolid = true) : r.Gathers [r.current] [] r.next :=
    .next hr (TokenKind.ne_endOfSource_of_isSolid hk)
  cases hk : r.current.kind with
  | keyword word =>
    have h1 := skip (by simp [hk])
    cases word with
    | for_ =>
      simp only [hk, advance_bind_run] at h
      obtain ⟨target, mid, htarget, h⟩ := bind_ok.1 h
      obtain ⟨t, after, ht, h⟩ := bind_ok.1 h
      obtain ⟨hin, rfl, rfl⟩ := expect_ok.1 ht
      obtain ⟨iterable, last, hiterable, h⟩ := bind_ok.1 h
      cases h
      have h2 := targetList_reads hsub (h1.ended hr) htarget
      have h3 := Gathers.next (h2.ended (h1.ended hr)) (by simp [hin])
      have h4 := hsub _ (h3.ended (h2.ended (h1.ended hr))) hiterable
      exact ⟨[r.current, mid.current], by simp [hk, hin], by simp,
        ((h1.trans h2).trans h3).trans h4⟩
    | if_ =>
      simp only [hk, advance_bind_run] at h
      obtain ⟨condition, last, hcondition, h⟩ := bind_ok.1 h
      cases h
      exact ⟨[r.current], by simp [hk], by simp, h1.trans (hsub _ (h1.ended hr) hcondition)⟩
    | _ =>
      simp only [hk] at h
      cases h
      exact ⟨[], by simp, by simp, .refl r⟩
  | _ =>
    simp only [hk] at h
    cases h
    exact ⟨[], by simp, by simp, .refl r⟩

theorem bracketed_reads (hsub : ∀ p, Reads (sub p)) {bracket : Bracket} {item : Parse α}
    {parts : α → List Expr} (hitem : Collects item parts fun _ => False)
    {collect : List α → Shape Expr} (hcollect : ∀ as, (collect as).parts = as.flatMap parts)
    {comprehend : α → List (Clause Expr) → Shape Expr}
    (hcomprehend : ∀ a cs, (comprehend a cs).parts = parts a ++ cs.flatMap Clause.parts)
    {r r' : Reader} {e : Expr} (hr : r.Ended) (hk : r.current.kind.isSolid = true)
    (h : bracketed g sub bracket item collect comprehend r = .ok e r') :
    r.Gathers [] [e] r' := by
  have h1 := Gathers.next hr (TokenKind.ne_endOfSource_of_isSolid hk)
  have close {own : List Token} {shape : Shape Expr} {mid : Reader}
      (hg : r.Gathers (r.current :: own) shape.parts mid)
      (hsolid : ∀ t ∈ own, t.kind.isSolid = true)
      (h : (expect (.closing bracket) >>= fun _ => spanFrom r.current.span.start >>= fun span =>
        node span shape) mid = .ok e r') : r.Gathers [] [e] r' := by
    obtain ⟨t, after, ht, h⟩ := bind_ok.1 h
    obtain ⟨hc, rfl, rfl⟩ := expect_ok.1 ht
    rw [spanFrom_bind_run, node_run] at h
    cases h
    have hnext := hg.trans (Gathers.next (hg.ended hr) (by simp [hc]))
    rw [List.append_nil] at hnext
    exact hnext.node (by simp)
      (List.forall_mem_append.2 ⟨List.forall_mem_cons.2 ⟨hk, hsolid⟩, by simp [hc]⟩) rfl
  rw [bracketed, advance_bind_run, kind_bind_run] at h
  split at h
  · exact close (by simpa [hcollect] using h1) (by simp) h
  · obtain ⟨first, mid, hfirst, h⟩ := bind_ok.1 h
    obtain ⟨own, hsolid, -, h2⟩ := hitem (h1.ended hr) hfirst
    have h12 := h1.trans h2
    rw [kind_bind_run] at h
    split at h
    · obtain ⟨cs, last, hcs, h⟩ := bind_ok.1 h
      obtain ⟨own', hsolid', -, h3⟩ := clauses_collects hsub (h12.ended hr) hcs
      refine close ?_ (List.forall_mem_append.2 ⟨hsolid, hsolid'⟩) h
      simpa [hcomprehend] using h12.trans h3
    · obtain ⟨others, last, hothers, h⟩ := bind_ok.1 h
      have hturn : Collects (do
          if (← kind) = .sign .comma then
            let _ ← advance
            if (← kind) = .closing bracket then return none else some <$> item
          else return none) (fun o => o.elim [] parts) fun _ => False := by
        intro r o r' hr h
        rw [kind_bind_run] at h
        split at h
        · rename_i hk
          have hn := Gathers.next hr (by simp [hk])
          rw [advance_bind_run, kind_bind_run] at h
          split at h
          · cases h
            exact ⟨[r.current], by simp [hk], by simp, hn⟩
          · obtain ⟨a, ha, rfl⟩ := map_ok.1 h
            obtain ⟨own, hsolid, -, hg⟩ := hitem (hn.ended hr) ha
            exact ⟨r.current :: own, by simpa [hk] using hsolid, by simp, hn.trans hg⟩
        · cases h
          exact ⟨[], by simp, by simp, .refl r⟩
      obtain ⟨own', hsolid', -, h3⟩ := hturn.many (h12.ended hr) hothers
      refine close ?_ (List.forall_mem_append.2 ⟨hsolid, hsolid'⟩) h
      simpa [hcollect] using h12.trans h3

theorem Reads.collects {x : Parse Expr} (hx : Reads x) :
    Collects x (fun e => [e]) fun _ => False :=
  fun _ _ _ hr h => ⟨[], by simp, by simp, hx hr h⟩

theorem list_reads (hsub : ∀ p, Reads (sub p)) {r r' : Reader} {e : Expr} (hr : r.Ended)
    (hk : r.current.kind.isSolid = true) (h : list g sub r = .ok e r') : r.Gathers [] [e] r' :=
  bracketed_reads hsub (hsub .lowest).collects (fun as => by simp [Shape.parts])
    (fun a cs => by simp [Shape.parts]) hr hk h

theorem entry_collects (hsub : ∀ p, Reads (sub p)) :
    Collects (entry sub) Entry.parts fun _ => False := by
  intro r entry r' hr h
  obtain ⟨key, mid, hkey, h⟩ := bind_ok.1 h
  obtain ⟨t, after, ht, h⟩ := bind_ok.1 h
  obtain ⟨hc, rfl, rfl⟩ := expectFor_ok.1 ht
  obtain ⟨value, last, hvalue, h⟩ := bind_ok.1 h
  cases h
  have h1 := hsub _ hr hkey
  have h2 := h1.trans (Gathers.next (h1.ended hr) (by simp [hc]))
  exact ⟨[mid.current], by simp [hc], by simp, h2.trans (hsub _ (h2.ended hr) hvalue)⟩

theorem dict_reads (hsub : ∀ p, Reads (sub p)) {r r' : Reader} {e : Expr} (hr : r.Ended)
    (hk : r.current.kind.isSolid = true) (h : dict g sub r = .ok e r') : r.Gathers [] [e] r' :=
  bracketed_reads hsub (entry_collects hsub) (fun as => by simp [Shape.parts])
    (fun a cs => by simp [Shape.parts]) hr hk h

theorem startWith_reads (hsub : ∀ p, Reads (sub p)) {r r' : Reader} {e : Expr} (hr : r.Ended)
    (hk : r.current.kind.isSolid = true) (rule : StartRule)
    (h : startWith g sub rule r = .ok e r') : r.Gathers [] [e] r' := by
  cases rule with
  | atom => exact atom_reads hr h
  | unary => exact unary_reads hsub hr h
  | group => exact group_reads hsub hr hk h
  | list => exact list_reads hsub hr hk h
  | dict => exact dict_reads hsub hr hk h

section Continue

variable {r mid r' : Reader} {left e : Expr}

/-- The right operand and its node, once the reader is past the operator. -/
theorem binaryNode_reads (hsub : ∀ p, Reads (sub p)) {own : List Token} (hr : r.Ended)
    (hleft : r.Gathers own [left] mid) (hstart : left.span.start = r.current.span.start)
    (hne : own ≠ []) (hsolid : ∀ t ∈ own, t.kind.isSolid = true) {op : BinaryOp}
    {precedence : Precedence}
    (h : (sub precedence >>= fun right => binaryNode op left right) mid = .ok e r') :
    r.Gathers [] [e] r' := by
  obtain ⟨right, last, hright, h⟩ := bind_ok.1 h
  have h2 := hsub _ (hleft.ended hr) hright
  rw [binaryNode, node_run] at h
  cases h
  have h3 : r.Gathers own (Shape.binary op left right).parts last := by
    simpa [Shape.parts] using hleft.trans h2
  exact h3.node hne hsolid (by rw [hstart, h2.span_stop])

theorem binary_reads (hsub : ∀ p, Reads (sub p)) (hr : r.Ended) (hleft : r.Gathers [] [left] mid)
    (hk : mid.current.kind.isSolid = true) {precedence : Precedence}
    (h : binary sub left precedence mid = .ok e r') : r.Gathers [] [e] r' := by
  have h1 := hleft.trans (.next (hleft.ended hr) (TokenKind.ne_endOfSource_of_isSolid hk))
  rw [binary, advance_bind_run] at h
  cases hop : BinaryOp.ofKind? mid.current.kind with
  | none => simp [hop, unexpected, throw_run] at h
  | some op =>
    simp only [hop] at h
    exact binaryNode_reads hsub hr h1 hleft.span_start (by simp) (by simpa using hk) h

theorem power_reads (hsub : ∀ p, Reads (sub p)) (hr : r.Ended) (hleft : r.Gathers [] [left] mid)
    (hk : mid.current.kind.isSolid = true) (h : power sub left mid = .ok e r') :
    r.Gathers [] [e] r' := by
  have h1 := hleft.trans (.next (hleft.ended hr) (TokenKind.ne_endOfSource_of_isSolid hk))
  exact binaryNode_reads hsub hr h1 hleft.span_start (by simp) (by simpa using hk) h

theorem notIn_reads (hsub : ∀ p, Reads (sub p)) (hr : r.Ended) (hleft : r.Gathers [] [left] mid)
    (hk : mid.current.kind.isSolid = true) {precedence : Precedence}
    (h : notIn sub left precedence mid = .ok e r') : r.Gathers [] [e] r' := by
  have h1 := hleft.trans (.next (hleft.ended hr) (TokenKind.ne_endOfSource_of_isSolid hk))
  rw [notIn, advance_bind_run] at h
  obtain ⟨t, after, ht, h⟩ := bind_ok.1 h
  obtain ⟨hin, rfl, rfl⟩ := expectFor_ok.1 ht
  have h2 := h1.trans (Gathers.next (h1.ended hr) (by simp [hin]))
  exact binaryNode_reads hsub hr h2 hleft.span_start (by simp) (by simp [hk, hin]) h

theorem conditional_reads (hsub : ∀ p, Reads (sub p)) (hr : r.Ended)
    (hleft : r.Gathers [] [left] mid) (hk : mid.current.kind.isSolid = true)
    (h : conditional sub left mid = .ok e r') : r.Gathers [] [e] r' := by
  have h1 := hleft.trans (.next (hleft.ended hr) (TokenKind.ne_endOfSource_of_isSolid hk))
  rw [conditional, advance_bind_run] at h
  obtain ⟨condition, mid', hcondition, h⟩ := bind_ok.1 h
  obtain ⟨t, after, ht, h⟩ := bind_ok.1 h
  obtain ⟨helse, rfl, rfl⟩ := expectFor_ok.1 ht
  obtain ⟨other, last, hother, h⟩ := bind_ok.1 h
  rw [node_run] at h
  cases h
  have h2 := h1.trans (hsub _ (h1.ended hr) hcondition)
  have h3 := h2.trans (.next (h2.ended hr) (by simp [helse]))
  have h4 := hsub _ (h3.ended hr) hother
  have h5 : r.Gathers [mid.current, mid'.current]
      (Shape.conditional left condition other).parts last := h3.trans h4
  exact h5.node (by simp) (by simp [hk, helse]) (by rw [hleft.span_start, h4.span_stop])

theorem separator_collects (message : String) :
    Collects (separator message) (fun _ => []) fun _ => False := by
  intro r a r' hr h
  rw [separator, kind_bind_run] at h
  split at h
  · rename_i hk
    rw [advance_bind_run] at h
    cases h
    exact ⟨[r.current], by simp [hk], by simp, .next hr (by simp [hk])⟩
  · split at h
    · simp [unmet_run] at h
    · cases h
      exact ⟨[], by simp, by simp, .refl r⟩

theorem argument_collects (hsub : ∀ p, Reads (sub p)) :
    Collects (argument sub) (fun a => [a.value]) fun _ => False := by
  intro r a r' hr h
  rw [argument, get_bind_run] at h
  have plain (h : (sub .lowest >>= fun e => pure (.positional e)) r = .ok a r') :
      ∃ own, (∀ t ∈ own, t.kind.isSolid = true) ∧ (False → own ≠ []) ∧
        r.Gathers own [a.value] r' := by
    obtain ⟨value, last, hvalue, h⟩ := bind_ok.1 h
    cases h
    exact ⟨[], by simp, by simp, hsub _ hr hvalue⟩
  have skip (hk : r.current.kind.isSolid = true) : r.Gathers [r.current] [] r.next :=
    .next hr (TokenKind.ne_endOfSource_of_isSolid hk)
  cases hk : r.current.kind with
  | sign sign =>
    have h1 := skip (by simp [hk])
    cases sign with
    | star | starStar =>
      simp only [hk, advance_bind_run] at h
      obtain ⟨value, last, hvalue, h⟩ := bind_ok.1 h
      cases h
      exact ⟨[r.current], by simp [hk], by simp, h1.trans (hsub _ (h1.ended hr) hvalue)⟩
    | _ =>
      simp only [hk] at h
      exact plain h
  | identifier =>
    have h1 := skip (by simp [hk])
    simp only [hk] at h
    split at h
    · rename_i hassign
      rw [advance_bind_run, advance_bind_run] at h
      obtain ⟨value, last, hvalue, h⟩ := bind_ok.1 h
      cases h
      have hn := kind_next_of_peek hassign (by simp)
      have h2 := h1.trans (.next (h1.ended hr) (by simp [hn]))
      exact ⟨[r.current, r.next.current], by simp [hk, hn], by simp,
        h2.trans (hsub _ (h2.ended hr) hvalue)⟩
    · exact plain h
  | _ =>
    simp only [hk] at h
    exact plain h

theorem call_reads (hsub : ∀ p, Reads (sub p)) (hr : r.Ended) (hleft : r.Gathers [] [left] mid)
    (hk : mid.current.kind.isSolid = true) (h : call sub left mid = .ok e r') :
    r.Gathers [] [e] r' := by
  have hturn : Collects (do
      if (← kind) = .closing .round then return none
      else
        let a ← argument sub
        separator "expected `,` or `)` in argument list"
        return some a) (fun o => o.elim [] fun a => [a.value]) fun _ => False := by
    intro r o r' hr h
    rw [kind_bind_run] at h
    split at h
    · cases h
      exact ⟨[], by simp, by simp, .refl r⟩
    · obtain ⟨a, mid, ha, h⟩ := bind_ok.1 h
      obtain ⟨u, last, hu, h⟩ := bind_ok.1 h
      cases h
      obtain ⟨own, hsolid, -, h1⟩ := argument_collects hsub hr ha
      obtain ⟨own', hsolid', -, h2⟩ := separator_collects _ (h1.ended hr) hu
      exact ⟨own ++ own', List.forall_mem_append.2 ⟨hsolid, hsolid'⟩, by simp, h1.trans h2⟩
  have h1 := hleft.trans (.next (hleft.ended hr) (TokenKind.ne_endOfSource_of_isSolid hk))
  rw [call, advance_bind_run] at h
  obtain ⟨arguments, last, harguments, h⟩ := bind_ok.1 h
  obtain ⟨t, after, ht, h⟩ := bind_ok.1 h
  obtain ⟨hc, rfl, rfl⟩ := expect_ok.1 ht
  rw [spanFrom_bind_run, node_run] at h
  cases h
  obtain ⟨own, hsolid, -, h2⟩ := hturn.many (h1.ended hr) harguments
  have h3 := h1.trans h2
  have h4 := h3.trans (.next (h3.ended hr) (by simp [hc]))
  have h5 : r.Gathers (mid.current :: own ++ [last.current]) (Shape.call left arguments).parts
      last.next := by
    simpa [Shape.parts, List.map_eq_flatMap] using h4
  refine h5.node (by simp) ?_ (by rw [hleft.span_start])
  exact List.forall_mem_append.2 ⟨List.forall_mem_cons.2 ⟨hk, hsolid⟩, by simp [hc]⟩

theorem bound_collects (hsub : ∀ p, Reads (sub p)) :
    Collects (bound sub) Option.toList fun _ => False := by
  intro r o r' hr h
  rw [bound, kind_bind_run] at h
  have absent (h : (pure none : Parse (Option Expr)) r = .ok o r') :
      ∃ own, (∀ t ∈ own, t.kind.isSolid = true) ∧ (False → own ≠ []) ∧
        r.Gathers own o.toList r' := by
    cases h
    exact ⟨[], by simp, by simp, .refl r⟩
  have present (h : (some <$> sub .lowest) r = .ok o r') :
      ∃ own, (∀ t ∈ own, t.kind.isSolid = true) ∧ (False → own ≠ []) ∧
        r.Gathers own o.toList r' := by
    obtain ⟨e, he, rfl⟩ := map_ok.1 h
    exact ⟨[], by simp, by simp, hsub _ hr he⟩
  cases hk : r.current.kind with
  | sign sign =>
    cases sign with
    | colon => exact absent (by simpa only [hk] using h)
    | _ => exact present (by simpa only [hk] using h)
  | closing bracket =>
    cases bracket with
    | square => exact absent (by simpa only [hk] using h)
    | _ => exact present (by simpa only [hk] using h)
  | _ => exact present (by simpa only [hk] using h)

theorem subscriptRest_collects (hsub : ∀ p, Reads (sub p)) {lower : Option Expr}
    {shape : Shape Expr} (hr : r.Ended) (h1 : r.Gathers [] lower.toList mid)
    (h : subscriptRest sub left lower mid = .ok shape r') :
    ∃ own rest, (∀ t ∈ own, t.kind.isSolid = true) ∧ shape.parts = left :: rest ∧
      r.Gathers own rest r' := by
  unfold subscriptRest at h
  rw [kind_bind_run] at h
  split at h
  · rename_i hc
    have h2 := h1.trans (.next (h1.ended hr) (by simp [hc]))
    rw [advance_bind_run] at h
    obtain ⟨upper, mid', hupper, h⟩ := bind_ok.1 h
    obtain ⟨own, hsolid, -, h3⟩ := bound_collects hsub (h2.ended hr) hupper
    have h4 := h2.trans h3
    have hsolid' : ∀ t ∈ mid.current :: own, t.kind.isSolid = true :=
      List.forall_mem_cons.2 ⟨by simp [hc], hsolid⟩
    rw [kind_bind_run] at h
    split at h
    · rename_i hc'
      have h5 := h4.trans (.next (h4.ended hr) (by simp [hc']))
      rw [advance_bind_run] at h
      obtain ⟨step, last, hstep, h⟩ := bind_ok.1 h
      obtain ⟨own', hown', -, h6⟩ := bound_collects hsub (h5.ended hr) hstep
      cases h
      refine ⟨mid.current :: own ++ [mid'.current] ++ own', _, ?_, rfl, by
        simpa using h5.trans h6⟩
      exact List.forall_mem_append.2
        ⟨List.forall_mem_append.2 ⟨hsolid', by simp [hc']⟩, hown'⟩
    · cases h
      exact ⟨mid.current :: own, _, hsolid', rfl, by simpa using h4⟩
  · cases lower with
    | none => simp [unmet_run] at h
    | some key =>
      cases h
      exact ⟨[], [key], by simp, rfl, h1⟩

theorem subscriptShape_collects (hsub : ∀ p, Reads (sub p)) {shape : Shape Expr} (hr : r.Ended)
    (h : subscriptShape g sub left r = .ok shape r') :
    ∃ own rest, (∀ t ∈ own, t.kind.isSolid = true) ∧ shape.parts = left :: rest ∧
      r.Gathers own rest r' := by
  rw [subscriptShape, kind_bind_run] at h
  split at h
  · have h1 : r.Gathers [] (Option.toList none) r := .refl r
    exact subscriptRest_collects hsub hr h1 h
  · obtain ⟨e, mid, he, h⟩ := bind_ok.1 h
    have h1 : r.Gathers [] (some e).toList mid := exprList_reads hsub hr he
    exact subscriptRest_collects hsub hr h1 h

theorem subscript_reads (hsub : ∀ p, Reads (sub p)) (hr : r.Ended)
    (hleft : r.Gathers [] [left] mid) (hk : mid.current.kind.isSolid = true)
    (h : subscript g sub left mid = .ok e r') : r.Gathers [] [e] r' := by
  have h1 := hleft.trans (.next (hleft.ended hr) (TokenKind.ne_endOfSource_of_isSolid hk))
  rw [subscript, advance_bind_run] at h
  obtain ⟨shape, last, hshape, h⟩ := bind_ok.1 h
  obtain ⟨t, after, ht, h⟩ := bind_ok.1 h
  obtain ⟨hc, rfl, rfl⟩ := expect_ok.1 ht
  rw [spanFrom_bind_run, node_run] at h
  cases h
  obtain ⟨own, rest, hsolid, hparts, h2⟩ := subscriptShape_collects hsub (h1.ended hr) hshape
  have h3 := h1.trans h2
  have h4 := h3.trans (.next (h3.ended hr) (by simp [hc]))
  have h5 : r.Gathers (mid.current :: own ++ [last.current]) shape.parts last.next := by
    simpa [hparts] using h4
  refine h5.node (by simp) ?_ (by rw [hleft.span_start])
  exact List.forall_mem_append.2 ⟨List.forall_mem_cons.2 ⟨hk, hsolid⟩, by simp [hc]⟩

theorem member_reads (hr : r.Ended) (hleft : r.Gathers [] [left] mid)
    (hk : mid.current.kind.isSolid = true) (h : member left mid = .ok e r') :
    r.Gathers [] [e] r' := by
  have h1 := hleft.trans (.next (hleft.ended hr) (TokenKind.ne_endOfSource_of_isSolid hk))
  rw [member, advance_bind_run] at h
  obtain ⟨t, after, ht, h⟩ := bind_ok.1 h
  obtain ⟨hn, rfl, rfl⟩ := expectFor_ok.1 ht
  rw [spanFrom_bind_run, node_run] at h
  cases h
  have h2 : r.Gathers [mid.current, mid.next.current]
      (Shape.member left mid.next.current.value).parts mid.next.next :=
    h1.trans (.next (h1.ended hr) (by simp [hn]))
  exact h2.node (by simp) (by simp [hk, hn]) (by rw [hleft.span_start])

theorem continueWith_reads (hsub : ∀ p, Reads (sub p)) (hr : r.Ended)
    (hleft : r.Gathers [] [left] mid) (hk : mid.current.kind.isSolid = true)
    {precedence : Precedence} (rule : ContinueRule)
    (h : continueWith g sub left precedence rule mid = .ok e r') : r.Gathers [] [e] r' := by
  cases rule with
  | binary => exact binary_reads hsub hr hleft hk h
  | power => exact power_reads hsub hr hleft hk h
  | notIn => exact notIn_reads hsub hr hleft hk h
  | conditional => exact conditional_reads hsub hr hleft hk h
  | call => exact call_reads hsub hr hleft hk h
  | subscript => exact subscript_reads hsub hr hleft hk h
  | member => exact member_reads hr hleft hk h

/-- A turn goes on with the tree that was read so far. -/
theorem extend_reads (hg : g.Solid) (hsub : ∀ p, Reads (sub p)) (hr : r.Ended)
    (hleft : r.Gathers [] [left] mid) {least : Precedence}
    (h : extend g sub least left mid = .ok (some e) r') : r.Gathers [] [e] r' := by
  rw [extend, kind_bind_run] at h
  cases hc : g.continues mid.current.kind with
  | none =>
    simp only [hc] at h
    cases h
  | some found =>
    obtain ⟨precedence, rule⟩ := found
    simp only [hc] at h
    split at h
    · obtain ⟨e', he, hsome⟩ := map_ok.1 h
      cases hsome
      exact continueWith_reads hsub hr hleft (hg.continues (by simp [hc])) rule he
    · cases h

theorem extend_none {least : Precedence} (hsub : extend g sub least left mid = .ok none r') :
    r' = mid := by
  rw [extend, kind_bind_run] at hsub
  cases hc : g.continues mid.current.kind with
  | none =>
    simp only [hc] at hsub
    cases hsub
    rfl
  | some found =>
    obtain ⟨precedence, rule⟩ := found
    simp only [hc] at hsub
    split at hsub
    · obtain ⟨e', -, hsome⟩ := map_ok.1 hsub
      cases hsome
    · cases hsub
      rfl

end Continue

theorem expressionOf_reads (hg : g.Solid) (hsub : ∀ p, Reads (sub p)) (least : Precedence) :
    Reads (expressionOf g sub least) := by
  intro r e r' hr h
  rw [expressionOf, kind_bind_run] at h
  cases hs : g.starts r.current.kind with
  | none => simp [hs, unmet_run] at h
  | some rule =>
    simp only [hs] at h
    obtain ⟨first, mid, hfirst, h⟩ := bind_ok.1 h
    have h1 := startWith_reads hsub hr (hg.starts (by simp [hs])) rule hfirst
    refine iterate_induction (P := fun e r' => r.Gathers [] [e] r') ?_ ?_ h1 h
    · intro left mid r' hleft hnone
      rw [extend_none hnone]
      exact hleft
    · intro left mid e r' hleft hsome
      exact extend_reads hg hsub hr hleft hsome

end Parse

open Parse

/-- An expression is read as a tree, whatever its least precedence. -/
theorem expression_reads {g : Grammar} (hg : g.Solid) (least : Precedence) :
    Reads (expression g least) := by
  intro r
  induction hn : r.remaining using Nat.strongRecOn generalizing r least with
  | ind n ih =>
    subst hn
    intro e r' hr h
    rw [expression] at h
    refine expressionOf_reads hg ?_ least hr h
    intro p r2 e2 r2' hr2 h2
    simp only at h2
    split at h2
    · rename_i hlt
      exact ih _ hlt p rfl hr2 h2
    · refine expressionOf_reads hg ?_ p hr2 h2
      intro p r3 e3 r3' _ h3
      simp [unmet_run] at h3

end BuildTyping
