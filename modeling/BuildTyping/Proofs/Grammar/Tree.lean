import BuildTyping.Grammar.Reader
import BuildTyping.Proofs.Token.Tiling

/-!
# Trees over tokens

An expression is read from consecutive tokens: those of its parts, in order, and between and
around them tokens of its own. Every node has at least one token of its own.
-/

namespace BuildTyping

/-- From the start of the first token to the end of the last. -/
def cover : List Token → Span
  | [] => default
  | t :: ts => ⟨t.span.start, (ts.getLastD t).span.stop⟩

mutual

/-- The expression is read from the tokens `ts`, and its nodes have the ids from `n` up to `n'`,
each after those of its parts. Brackets around it only widen its span. -/
inductive Tree : List Token → Nat → Expr → Nat → Prop where
  | node {own ts : List Token} {n n' : Nat} {shape : Shape Expr}
      (parts : Forest own ts n shape.parts n') (ne : own ≠ [])
      (solid : ∀ t ∈ own, t.kind.isSolid = true) : Tree ts n ⟨n', cover ts, shape⟩ (n' + 1)
  | group {ts : List Token} {n n' : Nat} {e : Expr} {t u : Token} (inner : Tree ts n e n')
      (opens : t.kind.isSolid = true) (closes : u.kind.isSolid = true) :
      Tree (t :: ts ++ [u]) n { e with span := cover (t :: ts ++ [u]) } n'

/-- The expressions are read from the tokens `ts`, but for the tokens `own` between them. -/
inductive Forest : List Token → List Token → Nat → List Expr → Nat → Prop where
  | nil (n : Nat) : Forest [] [] n [] n
  | own {own ts : List Token} {n n' : Nat} {es : List Expr} (t : Token)
      (rest : Forest own ts n es n') : Forest (t :: own) (t :: ts) n es n'
  | tree {own ts us : List Token} {n mid n' : Nat} {e : Expr} {es : List Expr}
      (first : Tree ts n e mid) (rest : Forest own us mid es n') :
      Forest own (ts ++ us) n (e :: es) n'

end

namespace Forest

theorem append {own' us : List Token} {mid n' : Nat} {es' : List Expr}
    (h' : Forest own' us mid es' n') : ∀ {own ts : List Token} {n : Nat} {es : List Expr},
      Forest own ts n es mid → Forest (own ++ own') (ts ++ us) n (es ++ es') n'
  | _, _, _, _, .nil _ => h'
  | _, _, _, _, .own t rest => .own t (append h' rest)
  | _, _, _, _, .tree first rest => by
    rw [List.append_assoc]
    exact .tree first (append h' rest)

theorem own_sublist : ∀ {own ts : List Token} {n n' : Nat} {es : List Expr},
    Forest own ts n es n' → own.Sublist ts
  | _, _, _, _, _, .nil _ => .slnil
  | _, _, _, _, _, .own t rest => rest.own_sublist.cons_cons t
  | _, _, _, _, _, .tree _ rest => rest.own_sublist.trans (List.sublist_append_right ..)

end Forest

namespace Tree

variable {ts : List Token} {n n' : Nat} {e : Expr}

theorem ne_nil (h : Tree ts n e n') : ts ≠ [] := by
  cases h with
  | node parts ne solid =>
    rintro rfl
    exact ne (List.sublist_nil.1 parts.own_sublist)
  | group => simp

theorem span_eq (h : Tree ts n e n') : e.span = cover ts := by
  cases h <;> rfl

end Tree

section StartsIn

variable {T : List Token}

/-- Every node of the expression starts where one of the tokens does. -/
def Expr.StartsIn (e : Expr) (T : List Token) : Prop :=
  ∀ node ∈ e.nodes, ∃ t ∈ T, t.span.start = node.span.start

theorem Expr.StartsIn.of_parts {e : Expr} (h : ∃ t ∈ T, t.span.start = e.span.start)
    (parts : ∀ part ∈ e.shape.parts, part.StartsIn T) : e.StartsIn T := by
  intro node hnode
  rw [nodes_eq] at hnode
  rcases List.mem_cons.1 hnode with rfl | hnode
  · exact h
  · obtain ⟨part, hpart, hnode⟩ := List.mem_flatMap.1 hnode
    exact parts part hpart node hnode

theorem Expr.StartsIn.part {e part : Expr} (h : e.StartsIn T) (hpart : part ∈ e.shape.parts) :
    part.StartsIn T := by
  intro node hnode
  refine h node ?_
  rw [nodes_eq]
  exact List.mem_cons_of_mem e (List.mem_flatMap.2 ⟨part, hpart, hnode⟩)

theorem Expr.StartsIn.mono {e : Expr} {ts : List Token} (h : e.StartsIn ts) (hts : ts ⊆ T) :
    e.StartsIn T := by
  intro node hnode
  obtain ⟨t, ht, hstart⟩ := h node hnode
  exact ⟨t, hts ht, hstart⟩

theorem exists_start_cover {ts : List Token} (h : ts ≠ []) :
    ∃ t ∈ ts, t.span.start = (cover ts).start := by
  obtain ⟨t, us, rfl⟩ := List.exists_cons_of_ne_nil h
  exact ⟨t, List.mem_cons_self, rfl⟩

mutual

/-- A tree starts where its first token does, and its parts are trees. -/
theorem Tree.startsIn : ∀ {ts : List Token} {n n' : Nat} {e : Expr}, Tree ts n e n' → e.StartsIn ts
  | _, _, _, _, .node parts ne solid =>
    .of_parts (exists_start_cover (Tree.node parts ne solid).ne_nil) parts.startsIn
  | _, _, _, _, .group inner opens closes =>
    .of_parts (exists_start_cover (Tree.group inner opens closes).ne_nil) fun _ hpart =>
      (inner.startsIn.part hpart).mono fun _ ht =>
        List.mem_cons_of_mem _ (List.mem_append_left _ ht)

theorem Forest.startsIn : ∀ {own ts : List Token} {n n' : Nat} {es : List Expr},
    Forest own ts n es n' → ∀ e ∈ es, e.StartsIn ts
  | _, _, _, _, _, .nil _ => by simp
  | _, _, _, _, _, .own t rest => fun e he => (rest.startsIn e he).mono (List.subset_cons_self _ _)
  | _, _, _, _, _, .tree first rest => List.forall_mem_cons.2
    ⟨first.startsIn.mono (List.subset_append_left _ _),
      fun e he => (rest.startsIn e he).mono (List.subset_append_right _ _)⟩

end

end StartsIn

/-- A tree of a forest starts where one of the tokens does. -/
theorem Forest.start_mem {own ts : List Token} {n n' : Nat} {es : List Expr}
    (h : Forest own ts n es n') {e : Expr} (he : e ∈ es) :
    ∃ t ∈ ts, t.span.start = e.span.start :=
  h.startsIn e he e (by simp [Expr.nodes_eq e])

mutual

/-- All tokens of a tree are solid. -/
theorem Tree.isSolid : ∀ {ts : List Token} {n n' : Nat} {e : Expr}, Tree ts n e n' →
    ∀ t ∈ ts, t.kind.isSolid = true
  | _, _, _, _, .node parts _ solid => parts.isSolid solid
  | _, _, _, _, .group inner opens closes => by
    rw [List.cons_append, List.forall_mem_cons, List.forall_mem_append]
    exact ⟨opens, inner.isSolid, by simpa using closes⟩

theorem Forest.isSolid : ∀ {own ts : List Token} {n n' : Nat} {es : List Expr},
    Forest own ts n es n' → (∀ t ∈ own, t.kind.isSolid = true) → ∀ t ∈ ts, t.kind.isSolid = true
  | _, _, _, _, _, .nil _, _ => by simp
  | _, _, _, _, _, .own _ rest, solid => by
    obtain ⟨ht, hown⟩ := List.forall_mem_cons.1 solid
    exact List.forall_mem_cons.2 ⟨ht, rest.isSolid hown⟩
  | _, _, _, _, _, .tree first rest, solid =>
    List.forall_mem_append.2 ⟨first.isSolid, rest.isSolid solid⟩

end

theorem Forest.exists_tree : ∀ {own ts : List Token} {n n' : Nat} {es : List Expr},
    Forest own ts n es n' → ∀ e ∈ es, ∃ us m m', us ⊆ ts ∧ Tree us m e m'
  | _, _, _, _, _, .nil _ => by simp
  | _, _, _, _, _, .own t rest => fun e he => by
    obtain ⟨us, m, m', hus, htree⟩ := rest.exists_tree e he
    exact ⟨us, m, m', fun u hu => List.mem_cons_of_mem t (hus hu), htree⟩
  | _, _, _, _, _, @Forest.tree _ ts _ _ _ _ _ _ first rest => by
    refine List.forall_mem_cons.2 ⟨⟨ts, _, _, List.subset_append_left _ _, first⟩, fun e he => ?_⟩
    obtain ⟨us, m, m', hus, htree⟩ := rest.exists_tree e he
    exact ⟨us, m, m', fun u hu => List.mem_append_right ts (hus hu), htree⟩

namespace Reader

/-- The current token and those after it. -/
def ahead (r : Reader) : List Token := r.current :: r.upcoming

theorem ahead_ne_nil (r : Reader) : r.ahead ≠ [] := List.cons_ne_nil _ _

/-- The last token ahead is the mark of the end. -/
def Ended (r : Reader) : Prop := ∃ t, r.ahead.getLast? = some t ∧ t.kind = .endOfSource

/-- The reader goes past the tokens `ts`. -/
structure Passes (r : Reader) (ts : List Token) (r' : Reader) : Prop where
  ahead : r.ahead = ts ++ r'.ahead
  consumed : r'.consumed = ts.reverse ++ r.consumed

variable {r r' r'' : Reader} {ts us own own' : List Token} {es es' : List Expr}

theorem ended_start (ts : List Token) (file : String) : (start ts file).Ended := by
  cases hl : ts.getLast? with
  | none =>
    rw [List.getLast?_eq_none_iff] at hl
    subst hl
    exact ⟨.endAt (.ofOffset 0 file), rfl, rfl⟩
  | some t =>
    obtain ⟨us, rfl⟩ := List.getLast?_eq_some_iff.1 hl
    have key (vs : List Token) (hvs : ∃ u, vs.getLast? = some u ∧ u.kind = .endOfSource) :
        (match vs with
          | [] => between [] (.endAt (.ofOffset 0 file)) [] 0
          | t :: ts => between [] t ts 0).Ended := by
      cases vs with
      | nil => exact ⟨.endAt (.ofOffset 0 file), rfl, rfl⟩
      | cons v vs => exact hvs
    apply key
    simp only [hl]
    split
    · rename_i hk
      exact ⟨t, by simp, hk⟩
    · exact ⟨.endAt t.span.stop, by simp, rfl⟩

theorem count_start (ts : List Token) (file : String) : (start ts file).count = 0 := by
  simp only [start]
  split <;> rfl

/-- Tokens that mark their end are all ahead at first. -/
theorem ahead_start {us : List Token} {t : Token} (h : t.kind = .endOfSource) (file : String) :
    (start (us ++ [t]) file).ahead = us ++ [t] := by
  simp only [start, List.getLast?_concat, h, if_true, List.append_nil]
  cases us with
  | nil => rfl
  | cons u us => rfl

theorem Passes.refl (r : Reader) : r.Passes [] r := ⟨rfl, rfl⟩

theorem Passes.trans (h : r.Passes ts r') (h' : r'.Passes us r'') : r.Passes (ts ++ us) r'' :=
  ⟨by rw [h.ahead, h'.ahead, List.append_assoc], by simp [h.consumed, h'.consumed]⟩

theorem Passes.ended (h : r.Passes ts r') (hr : r.Ended) : r'.Ended := by
  obtain ⟨t, ht, hk⟩ := hr
  refine ⟨t, ?_, hk⟩
  have hsome : r'.ahead.getLast?.isSome = true := by simp [ahead_ne_nil]
  rwa [h.ahead, List.getLast?_append, Option.or_of_isSome hsome] at ht

theorem ahead_next {t : Token} (h : r.ahead = t :: ts) (hne : ts ≠ []) : r.next.ahead = ts := by
  obtain ⟨rfl, hts⟩ := List.cons.inj h
  unfold next
  split
  · rename_i hu
    exact absurd (hts.symm.trans hu) hne
  · rename_i u us hu
    exact hu.symm.trans hts

theorem consumed_next {t : Token} (h : r.ahead = t :: ts) (hne : ts ≠ []) :
    r.next.consumed = t :: r.consumed := by
  obtain ⟨rfl, hts⟩ := List.cons.inj h
  unfold next
  split
  · rename_i hu
    exact absurd (hts.symm.trans hu) hne
  · rfl

/-- Only the mark of the end is not passed. -/
theorem passes_next (hr : r.Ended) (hk : r.current.kind ≠ .endOfSource) :
    r.Passes [r.current] r.next := by
  have hne : r.upcoming ≠ [] := by
    intro hu
    obtain ⟨t, ht, htk⟩ := hr
    simp only [ahead, hu, List.getLast?_singleton, Option.some.injEq] at ht
    exact hk (ht ▸ htk)
  exact ⟨by rw [ahead_next rfl hne]; rfl, consumed_next rfl hne⟩

theorem count_next (r : Reader) : r.next.count = r.count := by
  unfold next
  split <;> rfl

theorem kind_next_of_peek {kind : TokenKind} (h : r.peek 1 = kind) (hk : kind ≠ .endOfSource) :
    r.next.current.kind = kind := by
  subst h
  unfold next
  split
  · rename_i hu
    simp [peek, hu] at hk
  · rename_i t ts hu
    simp [peek, hu]

theorem spanFrom_start (r : Reader) (start : Position) : (r.spanFrom start).start = start := by
  unfold spanFrom
  split <;> rfl

/-- The span from the first of the tokens passed. -/
theorem Passes.spanFrom (h : r.Passes ts r') (hts : ts ≠ []) :
    r'.spanFrom r.current.span.start = cover ts := by
  cases ts with
  | nil => simp at hts
  | cons t ts =>
    have ht : r.current = t := (List.cons.inj h.ahead).1
    simp [Reader.spanFrom, previous?, h.consumed, ht, cover, List.getLastD_eq_getLast?]

theorem Passes.spanFrom_stop (h : r.Passes ts r') (hts : ts ≠ []) (start : Position) :
    r'.spanFrom start = ⟨start, (cover ts).stop⟩ := by
  cases ts with
  | nil => simp at hts
  | cons t ts => simp [Reader.spanFrom, previous?, h.consumed, cover, List.getLastD_eq_getLast?]

/-- The reader goes past the trees of the expressions and past tokens `own` between them. -/
def Gathers (r : Reader) (own : List Token) (es : List Expr) (r' : Reader) : Prop :=
  ∃ ts, r.Passes ts r' ∧ Forest own ts r.count es r'.count

namespace Gathers

theorem refl (r : Reader) : r.Gathers [] [] r := ⟨[], .refl r, .nil _⟩

theorem trans (h : r.Gathers own es r') (h' : r'.Gathers own' es' r'') :
    r.Gathers (own ++ own') (es ++ es') r'' := by
  obtain ⟨ts, hp, hf⟩ := h
  obtain ⟨us, hp', hf'⟩ := h'
  exact ⟨ts ++ us, hp.trans hp', hf'.append hf⟩

theorem ended (h : r.Gathers own es r') (hr : r.Ended) : r'.Ended := by
  obtain ⟨ts, hp, -⟩ := h
  exact hp.ended hr

theorem next (hr : r.Ended) (hk : r.current.kind ≠ .endOfSource) :
    r.Gathers [r.current] [] r.next :=
  ⟨_, passes_next hr hk, by rw [count_next]; exact .own _ (.nil _)⟩

/-- Going past one tree and nothing else. -/
theorem tree {e : Expr} (h : r.Gathers [] [e] r') :
    ∃ ts, r.Passes ts r' ∧ Tree ts r.count e r'.count := by
  obtain ⟨ts, hp, hf⟩ := h
  cases hf with
  | tree first rest =>
    cases rest with
    | nil => exact ⟨_, hp, by simpa using first⟩

theorem span_start {e : Expr} (h : r.Gathers [] [e] r') :
    e.span.start = r.current.span.start := by
  obtain ⟨ts, hp, ht⟩ := h.tree
  rw [ht.span_eq, ← hp.spanFrom ht.ne_nil, spanFrom_start]

theorem span_stop {e : Expr} (h : r.Gathers [] [e] r') (start : Position) :
    r'.spanFrom start = ⟨start, e.span.stop⟩ := by
  obtain ⟨ts, hp, ht⟩ := h.tree
  rw [ht.span_eq, hp.spanFrom_stop ht.ne_nil]

/-- A node of what the reader went past. -/
theorem node {shape : Shape Expr} {span : Span} (h : r.Gathers own shape.parts r')
    (ne : own ≠ []) (solid : ∀ t ∈ own, t.kind.isSolid = true)
    (hspan : span = r'.spanFrom r.current.span.start) :
    r.Gathers [] [⟨r'.count, span, shape⟩] { r' with count := r'.count + 1 } := by
  obtain ⟨ts, hp, hf⟩ := h
  have hts : ts ≠ [] := by
    rintro rfl
    exact ne (List.sublist_nil.1 hf.own_sublist)
  refine ⟨ts, ⟨hp.ahead, hp.consumed⟩, ?_⟩
  rw [hspan, hp.spanFrom hts]
  have hf' := Forest.tree (.node hf ne solid) (.nil (r'.count + 1))
  rwa [List.append_nil] at hf'

/-- An expression between brackets. -/
theorem group {e : Expr} (hr : r.Ended) (ho : r.current.kind.isSolid = true)
    (h : r.next.Gathers [] [e] r') (hc : r'.current.kind.isSolid = true) :
    r.Gathers [] [{ e with span := r'.next.spanFrom r.current.span.start }] r'.next := by
  have hn := passes_next hr (TokenKind.ne_endOfSource_of_isSolid ho)
  obtain ⟨ts, hp, ht⟩ := h.tree
  have hn' := passes_next (hp.ended (hn.ended hr)) (TokenKind.ne_endOfSource_of_isSolid hc)
  have hall := (hn.trans hp).trans hn'
  refine ⟨_, hall, ?_⟩
  rw [hall.spanFrom (by simp), count_next]
  rw [count_next] at ht
  have hf := Forest.tree (.group ht ho hc) (.nil r'.count)
  rwa [List.append_nil] at hf

end Gathers

end Reader

end BuildTyping
