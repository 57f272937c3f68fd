import BuildTyping.Proofs.Grammar.Laminar
import BuildTyping.Proofs.Report.Order
import BuildTyping.Proofs.Report.Piece
import BuildTyping.Typing.Inference
import Mathlib.Data.List.Nodup

/-!
# The annotated source as a rendering of trees

A tree is rendered by its own text with every part replaced by the rendering of the part, between
an opener and a closer if it has a type. The annotated source is the rendering of the outermost
expressions within the whole source, although it is made by sorting insertions.
-/

namespace BuildTyping

/-- The source from `lo` to `hi` with something else in the place of each span. -/
def fill (source : List Char) : Nat → List (Span × Option (List Piece)) → Nat →
    Option (List Piece)
  | lo, [], hi => do return [.copied (← slice? lo hi source)]
  | lo, (span, rendering) :: rest, hi => do
    let gap ← slice? lo span.start.offset source
    let inside ← rendering
    let after ← fill source span.stop.offset rest hi
    return .copied gap :: (inside ++ after)

/-- Wraps the pieces of an expression if it has a type. -/
def wrap (types : TypeMap) (e : Expr) (inner : List Piece) : List Piece :=
  match types[e.id]? with
  | some ty => .inserted (.opener ⟨e, ty⟩) :: (inner ++ [.inserted (.closer ⟨e, ty⟩)])
  | none => inner

namespace Expr

/-- The text of the expression with each part rendered, in the wrapper of its type. -/
def rendering (source : List Char) (types : TypeMap) (e : Expr) : Option (List Piece) :=
  let parts := e.shape.parts.attach.map fun ⟨part, h⟩ =>
    have := sizeOf_lt_of_mem_parts h
    (part.span, part.rendering source types)
  (fill source e.span.start.offset parts e.span.stop.offset).map (wrap types e)
  termination_by sizeOf e

theorem rendering_eq (source : List Char) (types : TypeMap) (e : Expr) :
    e.rendering source types = (fill source e.span.start.offset
      (e.shape.parts.map fun part => (part.span, part.rendering source types))
      e.span.stop.offset).map (wrap types e) := by
  rw [rendering]
  simp only
  rw [List.map_subtype (g := fun part => (part.span, part.rendering source types))
    (fun _ _ => rfl), List.unattach_attach]

end Expr

/-- The source with each outermost expression rendered. -/
def Program.rendering (source : List Char) (p : Program) (types : TypeMap) :
    Option (List Piece) :=
  fill source 0 (p.roots.map fun root => (root.span, root.rendering source types))
    (byteLength source)

/-- The mark of an expression that has a type. -/
def markOf? (types : TypeMap) (e : Expr) : Option Mark := types[e.id]?.map fun ty => ⟨e, ty⟩

theorem expr_of_markOf? {types : TypeMap} {e : Expr} {m : Mark} (h : markOf? types e = some m) :
    m.expr = e := by
  obtain ⟨ty, -, rfl⟩ := Option.map_eq_some_iff.1 h
  rfl

namespace Piece

/-- Among the pieces from `lo` on the expression of the mark stands between its own opener and its
own closer. -/
def Wraps (source : List Char) (lo : Nat) (ps : List Piece) (m : Mark) : Prop :=
  ∃ before inner after, ps = before ++ inserted (.opener m) :: (inner ++ inserted (.closer m) ::
    after) ∧ Nested inner ∧ slice? lo m.expr.span.start.offset source = some (before.flatMap kept) ∧
    slice? m.expr.span.start.offset m.expr.span.stop.offset source = some (inner.flatMap kept)

/-- The pieces render the given expressions and nothing else: they spell the source, and their
insertions are nested, in order, and those of the expressions that have a type. -/
structure Renders (source : List Char) (types : TypeMap) (lo : Nat) (ps : List Piece)
    (nodes : List Expr) (hi : Nat) : Prop where
  spells : Spells source lo ps hi
  nested : Nested ps
  before : (ps.filterMap insertion?).Pairwise Insertion.Before
  perm : (ps.filterMap insertion?).Perm ((nodes.filterMap (markOf? types)).flatMap Mark.ends)
  wraps : ∀ m ∈ nodes.filterMap (markOf? types), Wraps source lo ps m

variable {source : List Char} {types : TypeMap} {lo mid hi : Nat} {ps qs : List Piece}
  {nodes nodes' : List Expr}

theorem Wraps.append {m : Mark} (h : Wraps source lo ps m) (qs : List Piece) :
    Wraps source lo (ps ++ qs) m := by
  obtain ⟨before, inner, after, rfl, hn, hlo, hself⟩ := h
  exact ⟨before, inner, after ++ qs, by simp, hn, hlo, hself⟩

theorem Wraps.prepend {m : Mark} (h : Wraps source mid qs m) (hp : Spells source lo ps mid) :
    Wraps source lo (ps ++ qs) m := by
  obtain ⟨before, inner, after, rfl, hn, hlo, hself⟩ := h
  refine ⟨ps ++ before, inner, after, by simp, hn, ?_, hself⟩
  rw [List.flatMap_append]
  exact slice?_append hp.slice?_eq hlo

namespace Renders

theorem copied {text : List Char} (h : slice? lo hi source = some text) :
    Renders source types lo [.copied text] [] hi where
  spells := .copied h (.nil (isBoundary_of_slice? h).2)
  nested := .copied text .nil
  before := .nil
  perm := by simp [insertion?]
  wraps := by
    intro m hm
    simp at hm

/-- Each insertion belongs to an expression that is rendered. -/
theorem mem_ends (h : Renders source types lo ps nodes hi) {i : Insertion}
    (hi : i ∈ ps.filterMap insertion?) : ∃ m : Mark, m.expr ∈ nodes ∧ i ∈ m.ends := by
  obtain ⟨m, hm, him⟩ := List.mem_flatMap.1 (h.perm.mem_iff.1 hi)
  obtain ⟨e, he, hem⟩ := List.mem_filterMap.1 hm
  exact ⟨m, by rwa [expr_of_markOf? hem], him⟩

/-- Renderings of neighbours join. -/
theorem append (h : Renders source types lo ps nodes mid)
    (h' : Renders source types mid qs nodes' hi)
    (hlt : ∀ e ∈ nodes ++ nodes', e.span.start.offset < e.span.stop.offset)
    (hstop : ∀ e ∈ nodes, e.span.stop.offset ≤ mid)
    (hstart : ∀ e ∈ nodes', mid ≤ e.span.start.offset) :
    Renders source types lo (ps ++ qs) (nodes ++ nodes') hi where
  spells := h.spells.append h'.spells
  nested := h.nested.append h'.nested
  before := by
    rw [List.filterMap_append]
    refine List.pairwise_append.2 ⟨h.before, h'.before, ?_⟩
    intro i hi j hj
    obtain ⟨m, hm, him⟩ := h.mem_ends hi
    obtain ⟨n, hn, hjn⟩ := h'.mem_ends hj
    exact Mark.before_of_apart (hlt _ (by simp [hm])) (hlt _ (by simp [hn]))
      (Nat.le_trans (hstop _ hm) (hstart _ hn)) him hjn
  perm := by
    rw [List.filterMap_append, List.filterMap_append, List.flatMap_append]
    exact h.perm.append h'.perm
  wraps := by
    intro m hm
    rw [List.filterMap_append] at hm
    rcases List.mem_append.1 hm with hm | hm
    · exact (h.wraps m hm).append qs
    · exact (h'.wraps m hm).prepend h.spells

/-- What renders the parts of an expression, in the wrapper, renders the expression. -/
theorem wrap {e : Expr} (he : e.Laid source)
    (h : Renders source types e.span.start.offset ps (e.shape.parts.flatMap Expr.nodes)
      e.span.stop.offset) :
    Renders source types e.span.start.offset (BuildTyping.wrap types e ps) e.nodes
      e.span.stop.offset := by
  obtain ⟨hfits, hparts⟩ := Expr.laid_iff.1 he
  rw [Expr.nodes_eq]
  cases ht : types[e.id]? with
  | none =>
    have hnone : markOf? types e = none := by simp [markOf?, ht]
    simp only [BuildTyping.wrap, ht]
    refine ⟨h.spells, h.nested, h.before, ?_, ?_⟩
    · rw [List.filterMap_cons_none hnone]
      exact h.perm
    · rw [List.filterMap_cons_none hnone]
      exact h.wraps
  | some ty =>
    have hsome : markOf? types e = some ⟨e, ty⟩ := by simp [markOf?, ht]
    have hends : ∀ i ∈ ps.filterMap insertion?,
        Insertion.Before (.opener ⟨e, ty⟩) i ∧ Insertion.Before i (.closer ⟨e, ty⟩) := by
      intro i hi
      obtain ⟨m, hm, him⟩ := h.mem_ends hi
      obtain ⟨part, hp, hinner⟩ := List.mem_flatMap.1 hm
      have hlt := (hparts part hp m.expr hinner).lt
      obtain ⟨h1, h2⟩ := (hparts part hp).bounds hinner
      obtain ⟨h3, h4⟩ := hfits.parts.bounds hp
      have hstrict := hfits.strict hp
      exact Mark.before_of_within hlt (by simp only; omega) (by simp only; omega)
        (by simp only; omega) him
    have hopens : isBoundary e.span.start.offset source = true := hfits.start
    have hcloses : isBoundary e.span.stop.offset source = true := hfits.stop
    simp only [BuildTyping.wrap, ht]
    have hspells : Spells source e.span.start.offset
        (inserted (.opener ⟨e, ty⟩) :: (ps ++ [inserted (.closer ⟨e, ty⟩)]))
        e.span.stop.offset := by
      have hlast : Spells source e.span.stop.offset [inserted (.closer ⟨e, ty⟩)]
          e.span.stop.offset :=
        .inserted (i := .closer ⟨e, ty⟩) (.nil hcloses)
      exact .inserted (i := .opener ⟨e, ty⟩) (h.spells.append hlast)
    refine ⟨hspells, ?_, ?_, ?_, ?_⟩
    · exact .pair ⟨e, ty⟩ h.nested .nil
    · simp only [List.filterMap_cons, List.filterMap_append, List.filterMap_nil, insertion?]
      refine List.pairwise_cons.2 ⟨?_, List.pairwise_append.2 ⟨h.before, by simp, ?_⟩⟩
      · intro i hi
        rcases List.mem_append.1 hi with hi | hi
        · exact (hends i hi).1
        · rw [List.mem_singleton.1 hi]
          exact Mark.opener_before_closer hfits.lt
      · intro i hi j hj
        rw [List.mem_singleton.1 hj]
        exact (hends i hi).2
    · rw [List.filterMap_cons_some hsome]
      simp only [List.filterMap_cons, List.filterMap_append, List.filterMap_nil, insertion?,
        List.flatMap_cons, Mark.ends]
      refine List.Perm.trans ?_ (List.Perm.swap ..)
      exact ((List.perm_append_singleton ..).trans (h.perm.cons _)).cons _
    · rw [List.filterMap_cons_some hsome]
      refine List.forall_mem_cons.2 ⟨?_, ?_⟩
      · exact ⟨[], ps, [], by simp, h.nested, slice?_refl hopens, h.spells.slice?_eq⟩
      · intro m hm
        have hfirst : Spells source e.span.start.offset [inserted (.opener ⟨e, ty⟩)]
            e.span.start.offset :=
          .inserted (i := .opener ⟨e, ty⟩) (.nil hopens)
        exact ((h.wraps m hm).append _).prepend hfirst

/-- A row of expressions that are rendered fills the source between its ends. -/
theorem fill {es : List Expr} (hrow : Row Expr.span lo es hi) (hlo : isBoundary lo source = true)
    (hhi : isBoundary hi source = true) (hlaid : ∀ e ∈ es, e.Laid source)
    (h : ∀ e ∈ es, ∃ ps, e.rendering source types = some ps ∧
      Renders source types e.span.start.offset ps e.nodes e.span.stop.offset) :
    ∃ ps, BuildTyping.fill source lo
        (es.map fun e => (e.span, e.rendering source types)) hi = some ps ∧
      Renders source types lo ps (es.flatMap Expr.nodes) hi := by
  induction hrow with
  | nil le =>
    obtain ⟨text, htext⟩ := slice?_isSome le hlo hhi
    exact ⟨[.copied text], by simp [BuildTyping.fill, htext], .copied htext⟩
  | @cons lo hi e es le mid rest ih =>
    obtain ⟨he, hes⟩ := List.forall_mem_cons.1 hlaid
    have hfits := (Expr.laid_iff.1 he).1
    obtain ⟨⟨inside, hinside, hr⟩, hrest⟩ := List.forall_mem_cons.1 h
    obtain ⟨after, hafter, hr'⟩ := ih hfits.stop hhi hes hrest
    obtain ⟨gap, hgap⟩ := slice?_isSome le hlo hfits.start
    have hlt : ∀ inner ∈ e.nodes ++ es.flatMap Expr.nodes,
        inner.span.start.offset < inner.span.stop.offset := by
      intro inner hi
      rcases List.mem_append.1 hi with hi | hi
      · exact (he inner hi).lt
      · obtain ⟨root, hroot, hi⟩ := List.mem_flatMap.1 hi
        exact (hes root hroot inner hi).lt
    refine ⟨.copied gap :: (inside ++ after), ?_, ?_⟩
    · simp [BuildTyping.fill, hgap, hinside, hafter]
    · have hgap' : Renders source types lo [.copied gap] [] e.span.start.offset := .copied hgap
      refine hgap'.append (hr.append hr' hlt ?_ ?_) (by simpa using hlt) (by simp) ?_
      · exact fun inner hi => (he.bounds hi).2
      · intro inner hi
        obtain ⟨root, hroot, hi⟩ := List.mem_flatMap.1 hi
        exact Nat.le_trans (rest.bounds hroot).1 ((hes root hroot).bounds hi).1
      · intro inner hi
        rcases List.mem_append.1 hi with hi | hi
        · exact (he.bounds hi).1
        · obtain ⟨root, hroot, hi⟩ := List.mem_flatMap.1 hi
          have h1 := (rest.bounds hroot).1
          have h2 := ((hes root hroot).bounds hi).1
          omega

end Renders

end Piece

open Piece

variable {source : List Char} {types : TypeMap}

/-- An expression that is laid out has a rendering. -/
theorem Expr.renders {e : Expr} (h : e.Laid source) :
    ∃ ps, e.rendering source types = some ps ∧
      Renders source types e.span.start.offset ps e.nodes e.span.stop.offset := by
  induction e using Expr.inductionOnParts with
  | step e ih =>
    obtain ⟨hfits, hparts⟩ := laid_iff.1 h
    obtain ⟨ps, hps, hr⟩ := Renders.fill hfits.parts hfits.start hfits.stop hparts
      fun part hp => ih part hp (hparts part hp)
    exact ⟨wrap types e ps, by rw [rendering_eq, hps, Option.map_some], hr.wrap h⟩

theorem Program.renders {file : String} {p : Program} (hshort : byteLength source < 2 ^ 32)
    (h : ofSource source file = .ok p) (types : TypeMap) :
    ∃ ps, p.rendering source types = some ps ∧
      Renders source types 0 ps p.nodes (byteLength source) := by
  have hlaid : ∀ root ∈ p.roots, root.Laid source :=
    fun root hroot => laid_of_mem_roots hshort h hroot
  exact Renders.fill (laid hshort h).1 (isBoundary_zero source) (isBoundary_byteLength source) hlaid
    fun root hroot => Expr.renders (hlaid root hroot)

namespace Program

/-- The pieces are an annotated source: they make up its text, and leave the source when the
insertions are deleted. The insertions are those that annotating sorts, nested, with one opener
and one closer around the text of each expression with a type, and all slices that annotating
copies between them are slices of the source. -/
structure Annotates (source : List Char) (p : Program) (types : TypeMap) (ps : List Piece) :
    Prop where
  text : annotated source p types = ps.flatMap Piece.text
  kept : ps.flatMap Piece.kept = source
  inserted : ps.filterMap Piece.insertion? = insertions p types
  nested : Nested ps
  wraps : ∀ m ∈ p.marks types, Wraps source 0 ps m
  once : ∀ m ∈ p.marks types,
    (insertions p types).count (.opener m) = 1 ∧ (insertions p types).count (.closer m) = 1
  length : (insertions p types).length = 2 * (p.marks types).length
  slices : (0 :: ((insertions p types).map Insertion.offset ++ [byteLength source])).IsChain
    fun start stop => (slice? start stop source).isSome = true

theorem Annotates.of_renders {p : Program} {ps : List Piece}
    (h : Renders source types 0 ps p.nodes (byteLength source)) :
    p.Annotates source types ps := by
  have hperm : ((p.marks types).flatMap Mark.ends).Perm (ps.filterMap Piece.insertion?) :=
    h.perm.symm
  have hsorted : insertions p types = ps.filterMap Piece.insertion? :=
    Insertion.mergeSort_eq h.before hperm
  have hnodup : (ps.filterMap Piece.insertion?).Nodup := h.before.imp Insertion.Before.ne
  have hzero : slice? 0 0 source = some [] := slice?_refl (isBoundary_zero source)
  have hcount {m : Mark} (hm : m ∈ p.marks types) {i : Insertion} (hi : i ∈ m.ends) :
      (insertions p types).count i = 1 := by
    rw [hsorted]
    exact List.count_eq_one_of_mem hnodup (hperm.mem_iff.1 (List.mem_flatMap.2 ⟨m, hm, hi⟩))
  constructor
  case text =>
    have hsplice := h.spells.splice_eq hzero
    rwa [dropBytes_zero, List.nil_append, ← hsorted] at hsplice
  case kept =>
    have hall := slice?_byteLength h.spells.slice?_eq
    rw [dropBytes_zero] at hall
    exact hall.symm
  case inserted => exact hsorted.symm
  case nested => exact h.nested
  case wraps => exact h.wraps
  case once =>
    intro m hm
    exact ⟨hcount hm (by simp [Mark.ends]), hcount hm (by simp [Mark.ends])⟩
  case length =>
    rw [hsorted, ← hperm.length_eq]
    simp [List.length_flatMap, Mark.ends, Nat.mul_comm]
  case slices =>
    rw [hsorted]
    exact h.spells.slices hzero

/-- Every program read from a source with less than 4 GiB has a rendering in it, and that is its
annotated source. -/
theorem annotated_eq_rendering {file : String} {p : Program}
    (hshort : byteLength source < 2 ^ 32) (h : ofSource source file = .ok p) (types : TypeMap) :
    ∃ ps, p.rendering source types = some ps ∧ p.Annotates source types ps := by
  obtain ⟨ps, hps, hr⟩ := renders hshort h types
  exact ⟨ps, hps, .of_renders hr⟩

theorem annotated_eq_rendering_sum :
    ∃ p ps, ofSource "é = (1)+ß\n".toList "BUILD" = .ok p ∧
      p.rendering "é = (1)+ß\n".toList p.types = some ps ∧
      p.Annotates "é = (1)+ß\n".toList p.types ps ∧
      annotated "é = (1)+ß\n".toList p p.types = "é = int:<int:<(1)>+ß>\n".toList := by
  have hrun : ((ofSource "é = (1)+ß\n".toList "BUILD").toOption.bind
      fun p => (p.rendering "é = (1)+ß\n".toList p.types).map (·.flatMap Piece.text))
      = some "é = int:<int:<(1)>+ß>\n".toList := by decide +kernel
  cases hp : ofSource "é = (1)+ß\n".toList "BUILD" with
  | error fault =>
    rw [hp] at hrun
    simp [Except.toOption] at hrun
  | ok p =>
    obtain ⟨ps, hps, hann⟩ := annotated_eq_rendering (by decide +kernel) hp p.types
    rw [hp] at hrun
    simp only [Except.toOption, Option.bind_some, hps, Option.map_some, Option.some.injEq] at hrun
    exact ⟨p, ps, rfl, hps, hann, hann.text.trans hrun⟩

end Program

end BuildTyping
