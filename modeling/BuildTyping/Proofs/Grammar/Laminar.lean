import BuildTyping.Proofs.Grammar.Statement

/-!
# Spans are laminar

In a program read from a source every span is a text between boundaries, the parts of an
expression stand side by side within it and never fill it, and so do the outermost expressions
within the source.
-/

namespace BuildTyping

/-- The expressions or statements stand side by side, in order, between two offsets. -/
inductive Row {α : Type} (span : α → Span) : Nat → List α → Nat → Prop where
  | nil {lo hi : Nat} (le : lo ≤ hi) : Row span lo [] hi
  | cons {lo hi : Nat} {a : α} {as : List α} (le : lo ≤ (span a).start.offset)
      (mid : (span a).start.offset ≤ (span a).stop.offset)
      (rest : Row span (span a).stop.offset as hi) : Row span lo (a :: as) hi

namespace Row

variable {α : Type} {span : α → Span} {lo lo' hi hi' : Nat} {a : α} {as : List α}

theorem le (h : Row span lo as hi) : lo ≤ hi := by
  induction h with
  | nil le => exact le
  | cons le mid _ ih => omega

theorem mono_left (hlo : lo' ≤ lo) (h : Row span lo as hi) : Row span lo' as hi := by
  cases h with
  | nil le => exact .nil (by omega)
  | cons le mid rest => exact .cons (by omega) mid rest

theorem mono_right (hhi : hi ≤ hi') (h : Row span lo as hi) : Row span lo as hi' := by
  induction h with
  | nil le => exact .nil (by omega)
  | cons le mid _ ih => exact .cons le mid (ih hhi)

theorem bounds (h : Row span lo as hi) (ha : a ∈ as) :
    lo ≤ (span a).start.offset ∧ (span a).stop.offset ≤ hi := by
  induction h with
  | nil => simp at ha
  | cons le mid rest ih =>
    have := rest.le
    rcases List.mem_cons.1 ha with rfl | ha
    · exact ⟨le, this⟩
    · have := ih ha
      omega

/-- The last ones of a row stand side by side from where they start on. -/
theorem of_append {bs : List α} (h : Row span lo (as ++ bs) hi) (hle : lo' ≤ hi)
    (hstart : ∀ b ∈ bs, lo' ≤ (span b).start.offset) : Row span lo' bs hi := by
  induction as generalizing lo with
  | nil =>
    cases h with
    | nil => exact .nil hle
    | cons _ mid rest => exact .cons (hstart _ List.mem_cons_self) mid rest
  | cons a as ih =>
    obtain _ | ⟨_, _, rest⟩ := h
    exact ih rest

end Row

/-- The span is a text of the source in which the parts stand side by side and leave some of it
to the expression itself. -/
structure Expr.Fits (source : List Char) (e : Expr) : Prop where
  start : isBoundary e.span.start.offset source = true
  stop : isBoundary e.span.stop.offset source = true
  lt : e.span.start.offset < e.span.stop.offset
  parts : Row Expr.span e.span.start.offset e.shape.parts e.span.stop.offset
  ne : ∀ part ∈ e.shape.parts, part.span.offsets ≠ e.span.offsets

/-- A part leaves some of the text before or behind it to the whole. -/
theorem Expr.Fits.strict {source : List Char} {e part : Expr} (h : e.Fits source)
    (hp : part ∈ e.shape.parts) :
    e.span.start.offset < part.span.start.offset ∨ part.span.stop.offset < e.span.stop.offset := by
  obtain ⟨hstart, hstop⟩ := h.parts.bounds hp
  rcases Nat.lt_or_eq_of_le hstart with hlt | heq
  · exact .inl hlt
  · refine .inr (Nat.lt_of_le_of_ne hstop fun heq' => h.ne part hp ?_)
    rw [Span.offsets, Span.offsets, heq, heq']

/-- The expression and all expressions within it fit. -/
def Expr.Laid (source : List Char) (e : Expr) : Prop := ∀ inner ∈ e.nodes, inner.Fits source

theorem Expr.laid_iff {source : List Char} {e : Expr} :
    e.Laid source ↔ e.Fits source ∧ ∀ part ∈ e.shape.parts, part.Laid source := by
  simp only [Laid]
  rw [nodes_eq]
  simp only [List.forall_mem_cons, List.mem_flatMap]
  constructor
  · rintro ⟨h, hs⟩
    exact ⟨h, fun part hp inner hi => hs inner ⟨part, hp, hi⟩⟩
  · rintro ⟨h, hs⟩
    exact ⟨h, fun inner ⟨part, hp, hi⟩ => hs part hp inner hi⟩

/-- Whatever is within an expression that is laid out lies between its ends. -/
theorem Expr.Laid.bounds {source : List Char} {e inner : Expr} (h : e.Laid source)
    (hi : inner ∈ e.nodes) : e.span.start.offset ≤ inner.span.start.offset ∧
      inner.span.stop.offset ≤ e.span.stop.offset := by
  induction e using Expr.inductionOnParts with
  | step e ih =>
    rw [nodes_eq] at hi
    rcases List.mem_cons.1 hi with rfl | hi
    · exact ⟨Nat.le_refl _, Nat.le_refl _⟩
    · obtain ⟨part, hp, hi⟩ := List.mem_flatMap.1 hi
      obtain ⟨hfits, hparts⟩ := laid_iff.1 h
      obtain ⟨h1, h2⟩ := ih part hp (hparts part hp) hi
      obtain ⟨h3, h4⟩ := hfits.parts.bounds hp
      omega

variable {source : List Char}

/-- Tokens that tile a stretch end where the last of them does. -/
theorem Tiles.to_last {lo hi : Nat} {t : Token} {ts : List Token}
    (h : Tiles source lo (t :: ts) hi) :
    (ts.getLastD t).span.stop.offset ≤ hi ∧
      isBoundary (ts.getLastD t).span.stop.offset source = true ∧
      Tiles source lo (t :: ts) (ts.getLastD t).span.stop.offset := by
  induction ts generalizing lo t with
  | nil =>
    cases h with
    | cons le fits rest => exact ⟨rest.le, fits.stop, .single le fits (Nat.le_refl _)⟩
  | cons u ts ih =>
    cases h with
    | cons le fits rest =>
      obtain ⟨hle, hstop, htiles⟩ := ih rest
      rw [List.getLastD_cons]
      exact ⟨hle, hstop, .cons le fits htiles⟩

/-- What tokens cover lies between the ends of the stretch they tile, and they tile it too. -/
theorem Tiles.to_cover {lo hi : Nat} {ts : List Token} (h : Tiles source lo ts hi) (hts : ts ≠ []) :
    lo ≤ (cover ts).start.offset ∧ (cover ts).stop.offset ≤ hi ∧
      isBoundary (cover ts).start.offset source = true ∧
      isBoundary (cover ts).stop.offset source = true ∧
      Tiles source (cover ts).start.offset ts (cover ts).stop.offset := by
  cases ts with
  | nil => simp at hts
  | cons t ts =>
    obtain ⟨hle, hstop, htiles⟩ := h.to_last
    cases htiles with
    | cons le fits rest =>
      exact ⟨le, hle, fits.start, hstop, .cons (Nat.le_refl _) fits rest⟩

theorem Forest.lt_of_own : ∀ {own ts : List Token} {n n' : Nat} {es : List Expr} {lo hi : Nat},
    Forest own ts n es n' → own ≠ [] → (∀ t ∈ own, t.kind.isSolid = true) →
      Tiles source lo ts hi → lo < hi
  | _, _, _, _, _, _, _, .nil _, ne, _, _ => absurd rfl ne
  | _, _, _, _, _, _, _, .own t _, _, solid, .cons le fits tiles => by
    have := fits.lt (solid t (by simp))
    have := tiles.le
    omega
  | _, _, _, _, _, _, _, .tree _ rest, ne, solid, ht => by
    obtain ⟨mid, hts, hus⟩ := ht.split
    have := rest.lt_of_own ne solid hus
    have := hts.le
    omega

mutual

/-- A tree over tokens that tile a stretch is laid out within it. -/
theorem Tree.laid : ∀ {ts : List Token} {n n' : Nat} {e : Expr} {lo hi : Nat},
    Tree ts n e n' → Tiles source lo ts hi →
      lo ≤ e.span.start.offset ∧ e.span.stop.offset ≤ hi ∧ e.Laid source
  | _, _, _, _, _, _, @Tree.node own ts n n' shape parts ne solid, ht => by
    have hts : ts ≠ [] := by
      rintro rfl
      exact ne (List.sublist_nil.1 parts.own_sublist)
    obtain ⟨hlo, hhi, hstart, hstop, htiles⟩ := ht.to_cover hts
    obtain ⟨hrow, hlaid, hstrict⟩ := parts.laid htiles
    refine ⟨hlo, hhi, Expr.laid_iff.2 ⟨?_, hlaid⟩⟩
    refine ⟨hstart, hstop, parts.lt_of_own ne solid htiles, hrow, ?_⟩
    intro part hp he
    have := hstrict ne solid part hp
    obtain ⟨hfrom, hto⟩ := Prod.mk.inj he
    simp only at hfrom hto
    omega
  | _, _, _, _, _, _, @Tree.group ts n n' e t u inner opens closes, ht => by
    obtain ⟨hlo, hhi, hstart, hstop, htiles⟩ := ht.to_cover (by simp)
    obtain ⟨mid, hts, hus⟩ := htiles.split
    cases hts with
    | cons le fits hts =>
      cases hus with
      | cons le' fits' hus =>
        obtain ⟨h1, h2, hlaid⟩ := inner.laid hts
        obtain ⟨hfits, hparts⟩ := Expr.laid_iff.1 hlaid
        have hopen := fits.lt opens
        have hclose := fits'.lt closes
        have := hus.le
        have := hfits.lt
        refine ⟨hlo, hhi, Expr.laid_iff.2 ⟨⟨hstart, hstop, by simp only; omega, ?_, ?_⟩, hparts⟩⟩
        · exact (hfits.parts.mono_left (by simp only; omega)).mono_right (by simp only; omega)
        · intro part hp he
          have := (hfits.parts.bounds hp).1
          obtain ⟨hfrom, -⟩ := Prod.mk.inj he
          simp only at hfrom
          omega

/-- A forest over tokens that tile a stretch is a row in it, which it does not fill if it has a
solid token of its own. -/
theorem Forest.laid : ∀ {own ts : List Token} {n n' : Nat} {es : List Expr} {lo hi : Nat},
    Forest own ts n es n' → Tiles source lo ts hi →
      Row Expr.span lo es hi ∧ (∀ e ∈ es, e.Laid source) ∧
      (own ≠ [] → (∀ t ∈ own, t.kind.isSolid = true) →
        ∀ e ∈ es, lo < e.span.start.offset ∨ e.span.stop.offset < hi)
  | _, _, _, _, _, _, _, .nil _, ht => ⟨.nil ht.le, by simp, by simp⟩
  | _, _, _, _, _, _, _, .own t rest, .cons le fits ht => by
    obtain ⟨hrow, hlaid, -⟩ := rest.laid ht
    have := fits.le
    refine ⟨hrow.mono_left (by omega), hlaid, fun _ solid e he => .inl ?_⟩
    have := fits.lt (solid t (by simp))
    have := (hrow.bounds he).1
    omega
  | _, _, _, _, _, _, _, .tree first rest, ht => by
    obtain ⟨mid, hts, hus⟩ := ht.split
    obtain ⟨h1, h2, hfirst⟩ := first.laid hts
    obtain ⟨hrow, hlaid, hstrict⟩ := rest.laid hus
    have hlt := (Expr.laid_iff.1 hfirst).1.lt
    refine ⟨.cons h1 (Nat.le_of_lt hlt) (hrow.mono_left h2), List.forall_mem_cons.2 ⟨hfirst, hlaid⟩,
      fun ne solid => List.forall_mem_cons.2 ⟨.inr ?_, fun e he => ?_⟩⟩
    · have := rest.lt_of_own ne solid hus
      omega
    · have := hstrict ne solid e he
      have := hts.le
      omega

end

namespace Program

/-- A program is read from the first of the tokens of its source. -/
theorem exists_tokens_of_source {source : List Char} {file : String} {p : Program}
    (hshort : byteLength source < 2 ^ 32) (h : ofSource source file = .ok p) :
    ∃ own ts us n, tokens source file = .ok (ts ++ us) ∧ StmtForest own ts 0 p.body n := by
  obtain ⟨ts, r, hts, hq⟩ := ofSource_ok.1 h
  obtain ⟨-, us, hus, -⟩ := tokens_tile hshort hts
  obtain ⟨own, vs, hp, hf⟩ :=
    program_stacked Grammar.standard_solid file (Reader.ended_start ts file) hq
  have hahead : (Reader.start ts file).ahead = ts := by
    rw [hus]
    exact Reader.ahead_start rfl file
  have hsplit := hp.ahead
  rw [hahead] at hsplit
  rw [Reader.count_start] at hf
  exact ⟨own, vs, r.ahead, r.count, hsplit ▸ hts, hf⟩

/-- The tokens that a program is read from tile its source. -/
theorem stmtForest_of_source {source : List Char} {file : String} {p : Program}
    (hshort : byteLength source < 2 ^ 32) (h : ofSource source file = .ok p) :
    ∃ own ts n mid, Tiles source 0 ts mid ∧ mid ≤ byteLength source ∧
      StmtForest own ts 0 p.body n := by
  obtain ⟨own, ts, us, n, hts, hf⟩ := exists_tokens_of_source hshort h
  obtain ⟨mid, htiles, hrest⟩ := (tokens_tile hshort hts).1.split
  exact ⟨own, ts, n, mid, htiles, hrest.le, hf⟩

/-- The outermost expressions of a program stand side by side in its source, and every
expression fits. -/
theorem laid {source : List Char} {file : String} {p : Program}
    (hshort : byteLength source < 2 ^ 32) (h : ofSource source file = .ok p) :
    Row Expr.span 0 p.roots (byteLength source) ∧ ∀ e ∈ p.nodes, e.Fits source := by
  obtain ⟨_, ts, n, mid, htiles, hmid, hp⟩ := stmtForest_of_source hshort h
  obtain ⟨own, hf⟩ := hp.roots
  obtain ⟨hrow, hlaid, -⟩ := hf.laid htiles
  refine ⟨hrow.mono_right hmid, ?_⟩
  intro e he
  obtain ⟨root, hroot, he⟩ := List.mem_flatMap.1 he
  exact hlaid root hroot e he

theorem laid_of_mem_roots {source : List Char} {file : String} {p : Program}
    (hshort : byteLength source < 2 ^ 32) (h : ofSource source file = .ok p) {root : Expr}
    (hroot : root ∈ p.roots) : root.Laid source :=
  fun e he => (laid hshort h).2 e (List.mem_flatMap.2 ⟨root, hroot, he⟩)

end Program

end BuildTyping
