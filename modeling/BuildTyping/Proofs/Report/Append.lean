import BuildTyping.Proofs.Grammar.Append
import BuildTyping.Proofs.Grammar.Ids
import BuildTyping.Proofs.Report.Rendering
import BuildTyping.Proofs.Typing.Extends

/-!
# Appending to a source

When text is appended to a source that ends with a line, all that was found out about the source
stays: its expressions with their ids and spans, their types, and its annotated text. What the
appended text adds to them stands behind them.
-/

namespace BuildTyping

variable {source : List Char} {types types' : TypeMap} {lo mid hi : Nat} {ps qs : List Piece}

theorem fill_nil_eq_some : fill source lo [] hi = some ps ↔
    ∃ text, slice? lo hi source = some text ∧ ps = [.copied text] := by
  simp [fill, Option.bind_eq_some_iff, eq_comm (a := ps)]

theorem fill_cons_eq_some {span : Span} {rendering : Option (List Piece)}
    {rest : List (Span × Option (List Piece))} :
    fill source lo ((span, rendering) :: rest) hi = some ps ↔ ∃ gap inside after,
      slice? lo span.start.offset source = some gap ∧ rendering = some inside ∧
      fill source span.stop.offset rest hi = some after ∧
      ps = .copied gap :: (inside ++ after) := by
  simp [fill, Option.bind_eq_some_iff, eq_comm (a := ps)]

/-- Renderings that are kept fill a longer source the same way. -/
theorem fill_append_right {es : List Expr} {rendering rendering' : Expr → Option (List Piece)}
    (hkeep : ∀ e ∈ es, ∀ qs, rendering e = some qs → rendering' e = some qs)
    (h : fill source lo (es.map fun e => (e.span, rendering e)) hi = some ps)
    (more : List Char) :
    fill (source ++ more) lo (es.map fun e => (e.span, rendering' e)) hi = some ps := by
  induction es generalizing lo ps with
  | nil =>
    obtain ⟨text, htext, rfl⟩ := fill_nil_eq_some.1 h
    exact fill_nil_eq_some.2 ⟨text, slice?_append_right htext more, rfl⟩
  | cons e es ih =>
    obtain ⟨gap, inside, after, hgap, hinside, hafter, rfl⟩ := fill_cons_eq_some.1 h
    obtain ⟨he, hes⟩ := List.forall_mem_cons.1 hkeep
    exact fill_cons_eq_some.2 ⟨gap, inside, after, slice?_append_right hgap more,
      he inside hinside, ih hes hafter, rfl⟩

/-- Neighbouring texts that are filled join, with one gap where there were two at the seam. -/
theorem fill_append {first second : List (Span × Option (List Piece))}
    (h : fill source lo first mid = some ps) (h' : fill source mid second hi = some qs) :
    ∃ rs, fill source lo (first ++ second) hi = some rs ∧
      rs.flatMap Piece.text = ps.flatMap Piece.text ++ qs.flatMap Piece.text := by
  induction first generalizing lo ps with
  | nil =>
    obtain ⟨text, htext, rfl⟩ := fill_nil_eq_some.1 h
    cases second with
    | nil =>
      obtain ⟨text', htext', rfl⟩ := fill_nil_eq_some.1 h'
      exact ⟨_, fill_nil_eq_some.2 ⟨text ++ text', slice?_append htext htext', rfl⟩,
        by simp [Piece.text]⟩
    | cons part second =>
      obtain ⟨gap, inside, after, hgap, hinside, hafter, rfl⟩ := fill_cons_eq_some.1 h'
      exact ⟨_, fill_cons_eq_some.2 ⟨text ++ gap, inside, after, slice?_append htext hgap, hinside,
        hafter, rfl⟩, by simp [Piece.text]⟩
  | cons part first ih =>
    obtain ⟨gap, inside, after, hgap, hinside, hafter, rfl⟩ := fill_cons_eq_some.1 h
    obtain ⟨rs, hrs, htext⟩ := ih hafter
    exact ⟨_, fill_cons_eq_some.2 ⟨gap, inside, rs, hgap, hinside, hrs, rfl⟩, by simp [htext]⟩

/-- An expression whose types stay is rendered the same way in a longer source. -/
theorem Expr.rendering_append_right {e : Expr} (h : e.rendering source types = some ps)
    (htypes : ∀ inner ∈ e.nodes, types'[inner.id]? = types[inner.id]?) (more : List Char) :
    e.rendering (source ++ more) types' = some ps := by
  induction e using Expr.inductionOnParts generalizing ps with
  | step e ih =>
    rw [nodes_eq, List.forall_mem_cons] at htypes
    obtain ⟨hself, hparts⟩ := htypes
    rw [rendering_eq, Option.map_eq_some_iff] at h ⊢
    obtain ⟨inner, hinner, rfl⟩ := h
    refine ⟨inner, fill_append_right ?_ hinner more, by simp only [wrap, hself]⟩
    intro part hp qs hqs
    exact ih part hp hqs fun n hn => hparts n (List.mem_flatMap.2 ⟨part, hp, hn⟩)

namespace Program

variable {more : List Char} {file : String} {p p' : Program} {es : List Expr}

/-- What follows the source in a longer one is rendered by itself. -/
theorem exists_fill_of_append (hshort : byteLength (source ++ more) < 2 ^ 32)
    (h' : ofSource (source ++ more) file = .ok p') (hroots : p'.roots = p.roots ++ es)
    (hstart : ∀ e ∈ es, byteLength source ≤ e.span.start.offset) (types : TypeMap) :
    ∃ qs, fill (source ++ more) (byteLength source)
      (es.map fun e => (e.span, e.rendering (source ++ more) types))
      (byteLength (source ++ more)) = some qs := by
  obtain ⟨hrow, -⟩ := laid hshort h'
  rw [hroots] at hrow
  have hlaid : ∀ e ∈ es, e.Laid (source ++ more) := by
    intro e he
    apply laid_of_mem_roots hshort h'
    rw [hroots]
    exact List.mem_append_right _ he
  have hrow' : Row Expr.span (byteLength source) es (byteLength (source ++ more)) :=
    hrow.of_append (by simp) hstart
  obtain ⟨qs, hqs, -⟩ := Piece.Renders.fill hrow' (isBoundary_append source more)
    (isBoundary_byteLength _) hlaid fun e he => Expr.renders (hlaid e he)
  exact ⟨qs, hqs⟩

/-- When expressions are added behind the source and none of the others gets another type, the
annotated source goes on behind its end. -/
theorem annotated_prefix (hshort : byteLength (source ++ more) < 2 ^ 32)
    (h : ofSource source file = .ok p) (h' : ofSource (source ++ more) file = .ok p')
    (hroots : p'.roots = p.roots ++ es)
    (hstart : ∀ e ∈ es, byteLength source ≤ e.span.start.offset)
    (htypes : ∀ e ∈ p.nodes, types'[e.id]? = types[e.id]?) :
    annotated source p types <+: annotated (source ++ more) p' types' := by
  obtain ⟨ps, hps, hr⟩ := renders (Nat.lt_of_le_of_lt (by simp) hshort) h types
  obtain ⟨rs, hrs, hr'⟩ := renders hshort h' types'
  have hold : fill (source ++ more) 0 (p.roots.map fun e =>
      (e.span, e.rendering (source ++ more) types')) (byteLength source) = some ps := by
    refine fill_append_right ?_ hps more
    intro root hroot qs hqs
    exact Expr.rendering_append_right hqs
      (fun n hn => htypes n (List.mem_flatMap.2 ⟨root, hroot, hn⟩)) more
  obtain ⟨qs, hqs⟩ := exists_fill_of_append hshort h' hroots hstart types'
  obtain ⟨rs', hrs', htext⟩ := fill_append hold hqs
  rw [← List.map_append, ← hroots] at hrs'
  obtain rfl : rs' = rs := Option.some.inj (hrs'.symm.trans hrs)
  rw [(Annotates.of_renders hr).text, (Annotates.of_renders hr').text, htext]
  exact List.prefix_append _ _

/-- Text that is appended to a source which ends with a line, with less than 4 GiB in all, changes
nothing that was inferred: the expressions stay where they are with their ids, their spans and their
types, and the annotated source only goes on. -/
theorem append_keeps (hline : endsLine source file = true)
    (hshort : byteLength (source ++ more) < 2 ^ 32) (h : ofSource source file = .ok p)
    (h' : ofSource (source ++ more) file = .ok p') :
    p.nodes <+: p'.nodes ∧ (∀ e ∈ p.nodes, p'.types[e.id]? = p.types[e.id]?) ∧
      annotated source p p.types <+: annotated (source ++ more) p' p'.types := by
  have hbody := body_extends hline hshort h h'
  have htypes : ∀ e ∈ p.nodes, p'.types[e.id]? = p.types[e.id]? :=
    fun e he => types_of_extends hbody (nodup_ids h) (nodup_ids h') he
  obtain ⟨es, hroots, hstart⟩ := hbody.roots_append
  refine ⟨?_, htypes, annotated_prefix hshort h h' hroots hstart htypes⟩
  rw [nodes, nodes, roots, roots, hroots, List.flatMap_append]
  exact List.prefix_append _ _

/-- The block goes on, and the other branch binds its name again. -/
theorem append_keeps_branch :
    endsLine "if x:\n  y = 1\n".toList "BUILD" = true ∧
    ∃ p p', ofSource "if x:\n  y = 1\n".toList "BUILD" = .ok p ∧
      ofSource ("if x:\n  y = 1\n".toList ++ "  z = y\nelse:\n  y = ''\n".toList) "BUILD" = .ok p' ∧
      p.types.toList = [(2, .int)] ∧ p'.types.toList = [(2, .int), (4, .int), (6, .string)] ∧
      p.nodes <+: p'.nodes ∧ (∀ e ∈ p.nodes, p'.types[e.id]? = p.types[e.id]?) ∧
      annotated "if x:\n  y = 1\n".toList p p.types <+:
        annotated ("if x:\n  y = 1\n".toList ++ "  z = y\nelse:\n  y = ''\n".toList) p'
          p'.types := by
  have hline : endsLine "if x:\n  y = 1\n".toList "BUILD" = true := by decide +kernel
  have hrun : ((ofSource "if x:\n  y = 1\n".toList "BUILD").toOption.map fun p => p.types.toList) =
      some [(2, .int)] := by decide +kernel
  have hrun' : ((ofSource ("if x:\n  y = 1\n".toList ++ "  z = y\nelse:\n  y = ''\n".toList)
      "BUILD").toOption.map fun p => p.types.toList) =
      some [(2, .int), (4, .int), (6, .string)] := by decide +kernel
  cases hp : ofSource "if x:\n  y = 1\n".toList "BUILD" with
  | error fault =>
    rw [hp] at hrun
    simp [Except.toOption] at hrun
  | ok p =>
    cases hp' : ofSource ("if x:\n  y = 1\n".toList ++ "  z = y\nelse:\n  y = ''\n".toList)
        "BUILD" with
    | error fault =>
      rw [hp'] at hrun'
      simp [Except.toOption] at hrun'
    | ok p' =>
      rw [hp] at hrun
      rw [hp'] at hrun'
      exact ⟨hline, p, p', rfl, rfl, Option.some.inj hrun, Option.some.inj hrun',
        append_keeps hline (by decide +kernel) hp hp'⟩

end Program

end BuildTyping
