import BuildTyping.Proofs.Grammar.Laminar
import BuildTyping.Proofs.Syntax.Targets

/-!
# Statements are laminar

In a program read from a source the expressions of a statement and the statements within it stand
side by side within its span, and so do the statements of the program within the source.
-/

namespace BuildTyping

/-- The inner span lies between the ends of the outer. -/
def Span.Within (inner outer : Span) : Prop :=
  outer.start.offset ≤ inner.start.offset ∧ inner.stop.offset ≤ outer.stop.offset

theorem Span.Within.trans {a b c : Span} (h : a.Within b) (h' : b.Within c) : a.Within c :=
  ⟨Nat.le_trans h'.1 h.1, Nat.le_trans h.2 h'.2⟩

namespace Stmt

/-- The span is a text of the source in which the expressions stand side by side, and behind them
the statements within. -/
structure Fits (source : List Char) (s : Stmt) : Prop where
  start : isBoundary s.span.start.offset source = true
  stop : isBoundary s.span.stop.offset source = true
  le : s.span.start.offset ≤ s.span.stop.offset
  parts : ∃ mid, Row Expr.span s.span.start.offset s.form.exprs mid ∧
    Row span mid s.form.bodies s.span.stop.offset

variable {source : List Char}

namespace Fits

variable {s : Stmt}

theorem exprs (h : s.Fits source) {e : Expr} (he : e ∈ s.form.exprs) : e.span.Within s.span := by
  obtain ⟨mid, hexprs, hbodies⟩ := h.parts
  obtain ⟨hstart, hstop⟩ := hexprs.bounds he
  exact ⟨hstart, Nat.le_trans hstop hbodies.le⟩

theorem bodies (h : s.Fits source) {inner : Stmt} (hi : inner ∈ s.form.bodies) :
    inner.span.Within s.span := by
  obtain ⟨mid, hexprs, hbodies⟩ := h.parts
  obtain ⟨hstart, hstop⟩ := hbodies.bounds hi
  exact ⟨Nat.le_trans hexprs.le hstart, hstop⟩

end Fits

/-- The statement and all statements within it fit, and so do their expressions. -/
def Laid (source : List Char) (s : Stmt) : Prop :=
  ∀ inner ∈ s.nested, inner.Fits source ∧ ∀ e ∈ inner.form.exprs, e.Laid source

theorem laid_iff {s : Stmt} :
    s.Laid source ↔ (s.Fits source ∧ ∀ e ∈ s.form.exprs, e.Laid source) ∧
      ∀ inner ∈ s.form.bodies, inner.Laid source := by
  simp only [Laid]
  rw [nested_eq]
  simp only [List.forall_mem_cons, List.mem_flatMap]
  constructor
  · rintro ⟨h, hs⟩
    exact ⟨h, fun body hb inner hi => hs inner ⟨body, hb, hi⟩⟩
  · rintro ⟨h, hs⟩
    exact ⟨h, fun inner ⟨body, hb, hi⟩ => hs body hb inner hi⟩

namespace Laid

variable {s : Stmt}

theorem inner (h : s.Laid source) {inner : Stmt} (hi : inner ∈ s.nested) :
    inner.Laid source := by
  induction s using inductionOnBodies with
  | step s ih =>
    rw [nested_eq] at hi
    rcases List.mem_cons.1 hi with rfl | hi
    · exact h
    · obtain ⟨body, hb, hi⟩ := List.mem_flatMap.1 hi
      exact ih body hb ((laid_iff.1 h).2 body hb) hi

/-- Whatever statement is within one that is laid out lies within its span. -/
theorem inner_within (h : s.Laid source) {inner : Stmt} (hi : inner ∈ s.nested) :
    inner.span.Within s.span := by
  induction s using inductionOnBodies with
  | step s ih =>
    rw [nested_eq] at hi
    rcases List.mem_cons.1 hi with rfl | hi
    · exact ⟨Nat.le_refl _, Nat.le_refl _⟩
    · obtain ⟨body, hb, hi⟩ := List.mem_flatMap.1 hi
      obtain ⟨⟨hfits, -⟩, hbodies⟩ := laid_iff.1 h
      exact (ih body hb (hbodies body hb) hi).trans (hfits.bodies hb)

/-- Whatever expression is within a statement that is laid out lies within its span. -/
theorem node_within (h : s.Laid source) {e : Expr} (he : e ∈ s.nodes) :
    e.span.Within s.span := by
  induction s using inductionOnBodies with
  | step s ih =>
    obtain ⟨⟨hfits, hexprs⟩, hbodies⟩ := laid_iff.1 h
    obtain ⟨root, hroot, he⟩ := List.mem_flatMap.1 he
    rw [roots_eq] at hroot
    rcases List.mem_append.1 hroot with hroot | hroot
    · exact Span.Within.trans ((hexprs root hroot).bounds he) (hfits.exprs hroot)
    · obtain ⟨body, hb, hroot⟩ := List.mem_flatMap.1 hroot
      have hinner := ih body hb (hbodies body hb) (List.mem_flatMap.2 ⟨root, hroot, he⟩)
      exact hinner.trans (hfits.bodies hb)

end Laid

end Stmt

variable {source : List Char}

mutual

/-- A statement over tokens that tile a stretch is laid out within it. -/
theorem StmtTree.laid : ∀ {ts : List Token} {n n' : Nat} {s : Stmt} {lo hi : Nat},
    StmtTree ts n s n' → Tiles source lo ts hi →
      lo ≤ s.span.start.offset ∧ s.span.start.offset ≤ s.span.stop.offset ∧
        s.span.stop.offset ≤ hi ∧ s.Laid source
  | _, _, _, _, _, _, @StmtTree.node _ _ ts us _ _ _ _ _ exprs bodies ne, ht => by
    obtain ⟨mid, htiles, hending⟩ := ht.split
    obtain ⟨hlo, hhi, hstart, hstop, hcover⟩ := htiles.to_cover (by simp [ne])
    obtain ⟨mid', hts, hus⟩ := hcover.split
    obtain ⟨hrow, hexprs, -⟩ := exprs.laid hts
    obtain ⟨hrow', hbodies⟩ := bodies.laid hus
    have hle := hcover.le
    have hmid := hending.le
    exact ⟨hlo, hle, by simp only; omega,
      Stmt.laid_iff.2 ⟨⟨⟨hstart, hstop, hle, mid', hrow, hrow'⟩, hexprs⟩, hbodies⟩⟩

/-- Statements over tokens that tile a stretch are a row in it. -/
theorem StmtForest.laid : ∀ {own ts : List Token} {n n' : Nat} {ss : List Stmt} {lo hi : Nat},
    StmtForest own ts n ss n' → Tiles source lo ts hi →
      Row Stmt.span lo ss hi ∧ ∀ s ∈ ss, s.Laid source
  | _, _, _, _, _, _, _, .nil _, ht => ⟨.nil ht.le, by simp⟩
  | _, _, _, _, _, _, _, .own t rest, .cons le fits ht => by
    obtain ⟨hrow, hlaid⟩ := rest.laid ht
    have := fits.le
    exact ⟨hrow.mono_left (by omega), hlaid⟩
  | _, _, _, _, _, _, _, .tree first rest, ht => by
    obtain ⟨mid, hts, hus⟩ := ht.split
    obtain ⟨hlo, hle, hhi, hfirst⟩ := first.laid hts
    obtain ⟨hrow, hlaid⟩ := rest.laid hus
    exact ⟨.cons hlo hle (hrow.mono_left hhi), List.forall_mem_cons.2 ⟨hfirst, hlaid⟩⟩

end

namespace Program

/-- The spans of the program are laminar and in the order of the source. -/
structure Laminar (source : List Char) (p : Program) : Prop where
  /-- Every expression has a text in which its parts stand side by side and which none fills. -/
  nodes : ∀ e ∈ p.nodes, e.Fits source ∧ e.span.stop.offset ≤ byteLength source
  /-- The outermost expressions stand side by side, whatever statements they are in. -/
  roots : Row Expr.span 0 p.roots (byteLength source)
  /-- In every statement its expressions and the statements directly within it stand side by
  side. -/
  stmts : ∀ s ∈ p.stmts, s.Fits source
  body : Row Stmt.span 0 p.body (byteLength source)
  node_within : ∀ s ∈ p.stmts, ∀ e ∈ s.nodes, e.span.Within s.span
  inner_within : ∀ s ∈ p.stmts, ∀ inner ∈ s.nested, inner.span.Within s.span

/-- The spans of a program read from a source with less than 4 GiB are nested in order. -/
theorem laminar_of_source {file : String} {p : Program} (hshort : byteLength source < 2 ^ 32)
    (h : ofSource source file = .ok p) : p.Laminar source := by
  obtain ⟨own, ts, n, mid, htiles, hmid, hp⟩ := stmtForest_of_source hshort h
  obtain ⟨hbody, hlaid⟩ := hp.laid htiles
  obtain ⟨hroots, hfits⟩ := laid hshort h
  have hstmts : ∀ s ∈ p.stmts, s.Laid source := by
    intro s hs
    obtain ⟨outer, houter, hs⟩ := List.mem_flatMap.1 hs
    exact (hlaid outer houter).inner hs
  refine {
    nodes := ?_
    roots := hroots
    stmts := fun s hs => (Stmt.laid_iff.1 (hstmts s hs)).1.1
    body := hbody.mono_right hmid
    node_within := fun s hs e he => (hstmts s hs).node_within he
    inner_within := fun s hs inner hi => (hstmts s hs).inner_within hi }
  intro e he
  obtain ⟨root, hroot, hin⟩ := List.mem_flatMap.1 he
  have hlaid : root.Laid source :=
    fun inner hi => hfits inner (List.mem_flatMap.2 ⟨root, hroot, hi⟩)
  exact ⟨hfits e he, Nat.le_trans (hlaid.bounds hin).2 (hroots.bounds hroot).2⟩

/-- The function ends with its indented block, which is after the end of the line. -/
theorem laminar_of_source_define :
    ∃ p, ofSource "def f(a = 1):\n  if a: b = (a)\n(é[0], c)\n".toList "BUILD" = .ok p ∧
      p.Laminar "def f(a = 1):\n  if a: b = (a)\n(é[0], c)\n".toList ∧
      p.body.map (·.span.offsets) = [(0, 30), (30, 40)] := by
  have hrun : (ofSource "def f(a = 1):\n  if a: b = (a)\n(é[0], c)\n".toList "BUILD").toOption.map
      (fun p => p.body.map (·.span.offsets)) = some [(0, 30), (30, 40)] := by
    decide +kernel
  cases hp : ofSource "def f(a = 1):\n  if a: b = (a)\n(é[0], c)\n".toList "BUILD" with
  | error fault =>
    rw [hp] at hrun
    simp [Except.toOption] at hrun
  | ok p =>
    rw [hp] at hrun
    exact ⟨p, rfl, laminar_of_source (by decide +kernel) hp, Option.some.inj hrun⟩

end Program

end BuildTyping
