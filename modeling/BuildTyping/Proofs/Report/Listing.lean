import BuildTyping.Proofs.Grammar.Ids
import BuildTyping.Proofs.Grammar.Laminar
import BuildTyping.Proofs.Text.Collapse
import BuildTyping.Proofs.Text.Place
import BuildTyping.Proofs.Token.Visible
import BuildTyping.Report.Listing
import BuildTyping.Typing.Inference
import Mathlib.Data.List.Forall2

/-!
# The listing as a walk

Sorting the typed expressions by their spans changes nothing: an expression starts before all that
is within it or ends behind it, so the walk from the outside in has them in order already. Each is
listed at the place of its first character, which is no white space.
-/

namespace BuildTyping

/-- The first span starts before the second, or there and reaches further. -/
def Span.Precedes (a b : Span) : Prop :=
  a.start.offset < b.start.offset ∨ a.start.offset = b.start.offset ∧ b.stop.offset < a.stop.offset

theorem Row.pairwise {α : Type} {span : α → Span} {lo hi : Nat} {as : List α}
    (h : Row span lo as hi) :
    as.Pairwise fun a b => (span a).stop.offset ≤ (span b).start.offset := by
  induction h with
  | nil => exact .nil
  | cons _ _ rest ih => exact .cons (fun b hb => (rest.bounds hb).1) ih

variable {source : List Char} {lo hi : Nat}

/-- Neighbours have their nodes in order if each of them has. -/
theorem Row.pairwise_nodes {es : List Expr} (h : Row Expr.span lo es hi)
    (hlaid : ∀ e ∈ es, e.Laid source)
    (hnodes : ∀ e ∈ es, e.nodes.Pairwise fun a b => a.span.Precedes b.span) :
    (es.flatMap Expr.nodes).Pairwise fun a b => a.span.Precedes b.span := by
  refine List.pairwise_flatMap.2 ⟨hnodes, h.pairwise.imp_of_mem ?_⟩
  intro e f he hf hapart a ha b hb
  have hlt := (hlaid e he a ha).lt
  have hstop := ((hlaid e he).bounds ha).2
  have hstart := ((hlaid f hf).bounds hb).1
  exact .inl (by omega)

/-- An expression comes before all that is within it. -/
theorem Expr.Laid.pairwise_nodes {e : Expr} (h : e.Laid source) :
    e.nodes.Pairwise fun a b => a.span.Precedes b.span := by
  induction e using Expr.inductionOnParts with
  | step e ih =>
    obtain ⟨hfits, hparts⟩ := Expr.laid_iff.1 h
    rw [Expr.nodes_eq]
    refine .cons ?_ (hfits.parts.pairwise_nodes hparts fun part hp => ih part hp (hparts part hp))
    intro inner hi
    obtain ⟨part, hp, hi⟩ := List.mem_flatMap.1 hi
    have hbounds := (hparts part hp).bounds hi
    have hwithin := hfits.parts.bounds hp
    have hstrict := hfits.strict hp
    simp only [Span.Precedes]
    omega

theorem Mark.precedes_of_span {m n : Mark} (h : m.expr.span.Precedes n.expr.span) :
    Mark.precedes m n = true := by
  simp only [Span.Precedes, Mark.precedes] at *
  grind

namespace Program

variable {file : String} {p : Program}

theorem pairwise_nodes (hshort : byteLength source < 2 ^ 32) (h : ofSource source file = .ok p) :
    p.nodes.Pairwise fun a b => a.span.Precedes b.span := by
  have hlaid : ∀ root ∈ p.roots, root.Laid source :=
    fun root hroot => laid_of_mem_roots hshort h hroot
  exact (laid hshort h).1.pairwise_nodes hlaid fun root hroot => (hlaid root hroot).pairwise_nodes

/-- The walk over the program has the typed expressions in the order of the listing. -/
theorem mergeSort_marks (hshort : byteLength source < 2 ^ 32) (h : ofSource source file = .ok p)
    (types : TypeMap) :
    (p.marks types).mergeSort Mark.precedes = p.marks types := by
  refine List.mergeSort_of_pairwise ((pairwise_nodes hshort h).filterMap _ ?_)
  intro e f hspan m hm n hn
  obtain ⟨ty, -, rfl⟩ := Option.map_eq_some_iff.1 hm
  obtain ⟨ty', -, rfl⟩ := Option.map_eq_some_iff.1 hn
  exact Mark.precedes_of_span hspan

/-- No expression starts with white space. -/
theorem visibleAt_start (hshort : byteLength source < 2 ^ 32) (h : ofSource source file = .ok p)
    {e : Expr} (he : e ∈ p.nodes) : VisibleAt source e.span.start.offset := by
  obtain ⟨_, ts, us, n, hts, hp⟩ := exists_tokens_of_source hshort h
  obtain ⟨own, hf⟩ := hp.roots
  obtain ⟨root, hroot, he⟩ := List.mem_flatMap.1 he
  obtain ⟨vs, m, m', hvs, htree⟩ := hf.exists_tree root hroot
  obtain ⟨t, ht, hstart⟩ := htree.startsIn e he
  rw [← hstart]
  exact tokens_visible hshort hts t (List.mem_append_left us (hvs ht)) (htree.isSolid t ht)

end Program

namespace Listed

/-- The entry of a mark in terms of the text before it and of its own text. -/
theorem ofMark_eq {m : Mark} {before after text : List Char} (hsource : source = before ++ after)
    (hstart : byteLength before = m.expr.span.start.offset)
    (htext : slice? m.expr.span.start.offset m.expr.span.stop.offset source = some text) :
    ofMark source (lines source) m = ⟨m.expr.id, 1 + before.count '\n',
      (lastLine before).length + 1, m.ty, collapseBlanks text⟩ := by
  have hplace := placeFrom_append 1 before after
  have hline : slice? 0 (byteLength (lastLine before)) (lastLine before ++ firstLine after) =
      some (lastLine before) :=
    slice?_eq_some_iff.2 ⟨[], firstLine after, rfl, rfl, Nat.zero_add _⟩
  rw [← hsource, hstart] at hplace
  simp only [ofMark, hplace, htext, Option.getD_some, hline]

/-- What the entry of an expression says of it. The expression starts at the character in the given
column of the given line, the type is the recorded one, and the snippet is the text of the
expression with its white space collapsed. -/
structure Describes (source : List Char) (types : TypeMap) (x : Listed) (e : Expr) : Prop where
  id : x.id = e.id
  ty : types[e.id]? = some x.ty
  line : 1 ≤ x.line
  column : 1 ≤ x.column
  place : ∃ before c after row, source = before ++ c :: after ∧
    byteLength before = e.span.start.offset ∧ (lines source)[x.line - 1]? = some row ∧
    row[x.column - 1]? = some c ∧
    before = ((lines source).take (x.line - 1)).flatten ++ row.take (x.column - 1)
  snippet : ∃ text, slice? e.span.start.offset e.span.stop.offset source = some text ∧
    Collapses text x.snippet
  ne : x.snippet ≠ []

theorem describes_ofMark {types : TypeMap} {e : Expr} {ty : Ty} (hty : types[e.id]? = some ty)
    (hfits : e.Fits source) (hvisible : VisibleAt source e.span.start.offset) :
    (ofMark source (lines source) ⟨e, ty⟩).Describes source types e := by
  obtain ⟨before, c, after, hsource, hstart, hc⟩ := hvisible
  obtain ⟨text, htext⟩ := slice?_isSome (Nat.le_of_lt hfits.lt) hfits.start hfits.stop
  obtain ⟨row, hrow, hcolumn, hbefore⟩ := exists_line before c after
  rw [← hsource] at hrow hbefore
  have hcollapses := collapses_collapseBlanks text
  have hmem : c ∈ text := by
    rw [hsource, ← hstart] at htext
    exact mem_of_slice? htext (hstart ▸ hfits.lt)
  rw [ofMark_eq (m := ⟨e, ty⟩) hsource hstart htext]
  refine ⟨rfl, hty, Nat.le_add_right 1 _, Nat.le_add_left 1 _, ?_, ⟨text, htext, hcollapses⟩,
    hcollapses.ne_nil hmem hc⟩
  simp only [Nat.add_sub_cancel_left, Nat.add_sub_cancel]
  exact ⟨before, c, after, row, hsource, hstart, hrow, hcolumn, hbefore⟩

end Listed

/-- What is said of the entries of the typed expressions is said of the listing in order. -/
theorem forall₂_marks {R : Listed → Expr → Prop} {types : TypeMap} {f : Mark → Listed}
    {es : List Expr} (h : ∀ e ∈ es, ∀ ty, types[e.id]? = some ty → R (f ⟨e, ty⟩) e) :
    List.Forall₂ R ((es.filterMap fun e => types[e.id]?.map fun ty => ⟨e, ty⟩).map f)
      (es.filter fun e => types.contains e.id) := by
  induction es with
  | nil => exact .nil
  | cons e es ih =>
    obtain ⟨he, hes⟩ := List.forall_mem_cons.1 h
    have hcontains : types.contains e.id = (types[e.id]?).isSome :=
      Std.TreeMap.contains_eq_isSome_getElem?
    cases hty : types[e.id]? with
    | none =>
      rw [List.filterMap_cons_none (by rw [hty]; rfl),
        List.filter_cons_of_neg (by simp [hcontains, hty])]
      exact ih hes
    | some ty =>
      rw [List.filterMap_cons_some (by rw [hty]; rfl),
        List.filter_cons_of_pos (by simp [hcontains, hty])]
      exact .cons (he ty hty) (ih hes)

namespace Program

variable {file : String} {p : Program}

/-- The listing has an entry for each expression of the program that has a type and for no other,
in the order in which a walk comes to them, an expression before its parts. No expression has two
entries. -/
theorem listing_follows_walk (hshort : byteLength source < 2 ^ 32)
    (h : ofSource source file = .ok p) (types : TypeMap) :
    List.Forall₂ (Listed.Describes source types) (listing source p types)
      (p.nodes.filter fun e => types.contains e.id) ∧
    ((listing source p types).map Listed.id).Nodup := by
  have hlisting : List.Forall₂ (Listed.Describes source types) (listing source p types)
      (p.nodes.filter fun e => types.contains e.id) := by
    rw [listing, mergeSort_marks hshort h]
    refine forall₂_marks fun e he ty hty => ?_
    exact Listed.describes_ofMark hty ((laid hshort h).2 e he) (visibleAt_start hshort h he)
  refine ⟨hlisting, ?_⟩
  have hids : (listing source p types).map Listed.id =
      (p.nodes.filter fun e => types.contains e.id).map Expr.id := by
    rw [← List.forall₂_eq_eq_eq, List.forall₂_map_left_iff, List.forall₂_map_right_iff]
    exact hlisting.imp fun _ _ hd => hd.id
  rw [hids]
  exact (nodup_ids h).sublist (List.filter_sublist.map Expr.id)

/-- A sum in brackets over two lines, of which one operand has no type, and a string with white
space that no lexeme is separated by. -/
theorem listing_follows_walk_lines :
    let source := "é = 1\nx = [(ß +\n\té), 'ß \u2003b']\n".toList
    ∃ p, ofSource source "BUILD" = .ok p ∧
      List.Forall₂ (Listed.Describes source p.types) (listing source p p.types)
        (p.nodes.filter fun e => p.types.contains e.id) ∧
      (listing source p p.types).map Listed.text = ["1:5: int: 1",
        "2:6: int: (ß + é)", "3:2: int: é", "3:6: string: 'ß b'"] := by
  intro source
  have hrun : (ofSource source "BUILD").toOption.map
      (fun p => ((p.marks p.types).map (Listed.ofMark source (lines source))).map Listed.text) =
        some ["1:5: int: 1", "2:6: int: (ß + é)", "3:2: int: é", "3:6: string: 'ß b'"] := by
    decide +kernel
  cases hp : ofSource source "BUILD" with
  | error fault => simp [hp, Except.toOption] at hrun
  | ok p =>
    rw [hp] at hrun
    have hshort : byteLength source < 2 ^ 32 := by decide +kernel
    refine ⟨p, rfl, (listing_follows_walk hshort hp p.types).1, ?_⟩
    rw [listing, mergeSort_marks hshort hp]
    exact Option.some.inj hrun

end Program

end BuildTyping
