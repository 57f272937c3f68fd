import BuildTyping.Proofs.Typing.Coverage
import BuildTyping.Proofs.Typing.Simulation
import Mathlib.Data.List.Nodup

/-!
# What is recorded

The types of a program are those of the flat account, recorded in the same order. Where all ids
differ, every node has the type found at its visit, so the types solve one local equation at each
node, and each of them is recorded exactly once.
-/

namespace BuildTyping

namespace Visit

theorem getElem?_foldl_record_of_notMem {id : Nat} {visits : List Visit}
    (h : id ∉ visits.map fun v => v.expr.id) (types : TypeMap) :
    (visits.foldl record types)[id]? = types[id]? := by
  induction visits generalizing types with
  | nil => rfl
  | cons v visits ih =>
    obtain ⟨hv, hvs⟩ := not_or.1 (mt List.mem_cons.2 h)
    rw [List.foldl_cons, ih hvs]
    cases ht : v.ty? with
    | none => simp [record, ht]
    | some ty =>
      have hne : ¬ v.expr.id = id := fun he => hv he.symm
      simp [record, ht, Std.TreeMap.getElem?_insertIfNew, hne]

/-- Among visits with different ids each node keeps what is found at its own visit. -/
theorem getElem?_foldl_record {visits : List Visit}
    (h : (visits.map fun v => v.expr.id).Nodup) {v : Visit} (hv : v ∈ visits) (types : TypeMap)
    (hn : v.expr.id ∉ types) : (visits.foldl record types)[v.expr.id]? = v.ty? := by
  induction visits generalizing types with
  | nil => simp at hv
  | cons w visits ih =>
    obtain ⟨hw, hvs⟩ := List.nodup_cons.1 h
    rw [List.foldl_cons]
    rcases List.mem_cons.1 hv with rfl | hv
    · rw [getElem?_foldl_record_of_notMem hw]
      cases ht : v.ty? with
      | none => simpa [record, ht] using hn
      | some ty =>
        simp only [record, ht, Std.TreeMap.getElem?_insertIfNew]
        simp [hn]
    · have hne : ¬ w.expr.id = v.expr.id := fun he => hw (List.mem_map.2 ⟨v, hv, he.symm⟩)
      refine ih hvs hv _ ?_
      cases ht : w.ty? with
      | none => simpa [record, ht] using hn
      | some ty => simpa [record, ht, Std.TreeMap.mem_insertIfNew, hne] using hn

theorem ids_findings_sublist (visits : List Visit) :
    ((visits.filterMap finding?).map Prod.fst).Sublist (visits.map fun v => v.expr.id) := by
  induction visits with
  | nil => exact .slnil
  | cons v visits ih => cases h : v.ty? <;> simp [finding?, h, ih]

theorem finding?_eq_some_iff {v : Visit} {id : Nat} {ty : Ty} :
    v.finding? = some (id, ty) ↔ v.expr.id = id ∧ v.ty? = some ty := by
  cases h : v.ty? <;> simp [finding?, h]

end Visit

namespace Program

/-- The records made while the types of a program are inferred, in order. -/
def recordings (p : Program) : List (Nat × Ty) := p.events.filterMap Event.recorded?

/-- The inference of a program is a run from the outermost scope. -/
theorem inference_eq (p : Program) :
    p.types = p.flatTypes ∧ p.recordings = p.visits.filterMap Visit.finding? := by
  obtain ⟨after, hr, -, -⟩ := Infer.inferBlock_changes .start p.body
  obtain ⟨events, hrun, hrec, -⟩ := hr .start rfl
  rw [Scopes.environment_start] at hrun hrec
  refine ⟨?_, ?_⟩
  · rw [types, inference, hrun]
    rfl
  · rw [recordings, Program.events, inference, hrun, List.filterMap_append, visits, ← hrec]
    simp [Inference.start, Event.recorded?]

theorem nodup_ids_visits {p : Program} (h : (p.nodes.map Expr.id).Nodup) :
    (p.visits.map fun v => v.expr.id).Nodup := by
  have hp := (p.visits_perm.map Expr.id).symm.nodup h
  rwa [List.map_map] at hp

/-- Where all ids differ, a node has the type found at its visit. -/
theorem getElem?_types {p : Program} (h : (p.nodes.map Expr.id).Nodup) {v : Visit}
    (hv : v ∈ p.visits) : p.types[v.expr.id]? = v.ty? := by
  rw [p.inference_eq.1, flatTypes]
  exact Visit.getElem?_foldl_record (nodup_ids_visits h) hv ∅ (by simp)

theorem mem_recordings_iff {p : Program} (h : (p.nodes.map Expr.id).Nodup) (id : Nat) (ty : Ty) :
    (id, ty) ∈ p.recordings ↔ p.types[id]? = some ty := by
  rw [p.inference_eq.2, List.mem_filterMap]
  constructor
  · rintro ⟨v, hv, hf⟩
    obtain ⟨rfl, ht⟩ := Visit.finding?_eq_some_iff.1 hf
    rw [getElem?_types h hv, ht]
  · intro ht
    by_cases hid : id ∈ p.visits.map fun v => v.expr.id
    · obtain ⟨v, hv, rfl⟩ := List.mem_map.1 hid
      rw [getElem?_types h hv] at ht
      exact ⟨v, hv, Visit.finding?_eq_some_iff.2 ⟨rfl, ht⟩⟩
    · rw [p.inference_eq.1, flatTypes, Visit.getElem?_foldl_record_of_notMem hid] at ht
      simp at ht

/-- Each entry of the types is recorded once, and nothing else is. -/
theorem recordings_perm {p : Program} (h : (p.nodes.map Expr.id).Nodup) :
    p.recordings.Perm p.types.toList := by
  have hr : p.recordings.Nodup := by
    rw [p.inference_eq.2]
    exact List.Nodup.of_map Prod.fst
      ((Visit.ids_findings_sublist p.visits).nodup (nodup_ids_visits h))
  have ht : p.types.toList.Nodup := by
    refine p.types.distinct_keys_toList.imp ?_
    rintro a b hab rfl
    simp at hab
  rw [List.perm_ext_iff_of_nodup hr ht]
  rintro ⟨id, ty⟩
  rw [mem_recordings_iff h, Std.TreeMap.mem_toList_iff_getElem?_eq_some]

end Program

theorem Visit.ty?_of_name {v : Visit} {name : String} (hs : v.expr.shape = .name name) :
    v.ty? = match v.role with
      | .read => (v.env name).ty?
      | .target => none := by
  obtain ⟨⟨id, span, shape⟩, role, env⟩ := v
  obtain rfl : shape = .name name := hs
  cases role <;> rfl

theorem Standing.ty?_eq_some_iff (standing : Standing) (ty : Ty) :
    standing.ty? = some ty ↔ standing = .typed ty := by
  cases standing <;> simp [ty?]

/-- Without spans, the program of the source `x = 1` and, on the next lines,
`[x + 1 for x, y[x] in x]`, `d = {"k": str(x)}` and `depset(d)`. -/
def rebound : Program where
  body :=
    [⟨default, .assign ⟨0, default, .name "x"⟩ ⟨1, default, .literal (.int 1)⟩⟩,
      ⟨default, .expression ⟨11, default, .listComp
        ⟨4, default, .binary .add ⟨2, default, .name "x"⟩ ⟨3, default, .literal (.int 1)⟩⟩
        [.each
          ⟨9, default, .tuple [⟨5, default, .name "x"⟩,
            ⟨8, default, .index ⟨6, default, .name "y"⟩ ⟨7, default, .name "x"⟩⟩]⟩
          ⟨10, default, .name "x"⟩]⟩⟩,
      ⟨default, .assign ⟨12, default, .name "d"⟩ ⟨17, default, .dict
        [⟨⟨13, default, .literal (.string "k")⟩, ⟨16, default, .call ⟨14, default, .name "str"⟩
          [.positional ⟨15, default, .name "x"⟩]⟩⟩]⟩⟩,
      ⟨default, .expression ⟨20, default, .call ⟨18, default, .name "depset"⟩
        [.positional ⟨19, default, .name "d"⟩]⟩⟩]
  stop := default
  file := "BUILD"

/-- Inference with its nested scopes is the flat evaluation: it records the same findings in the
same order, from visits to every node. A name that is read is recorded with a type exactly when it
stands with this type in the flat environment of its visit. -/
theorem types_eq_flatTypes (p : Program) :
    p.types = p.flatTypes ∧
    p.recordings = p.visits.filterMap Visit.finding? ∧
    (p.visits.map Visit.expr).Perm p.nodes ∧
    (∀ v ∈ p.visits, ∀ name ty, v.role = .read → v.expr.shape = .name name →
      (v.finding? = some (v.expr.id, ty) ↔ v.env name = .typed ty)) ∧
    ((p.nodes.map Expr.id).Nodup → ∀ v ∈ p.visits, ∀ name ty, v.role = .read →
      v.expr.shape = .name name → (p.types[v.expr.id]? = some ty ↔ v.env name = .typed ty)) := by
  refine ⟨p.inference_eq.1, p.inference_eq.2, p.visits_perm, ?_, ?_⟩
  · intro v _ name ty hr hs
    rw [Visit.finding?_eq_some_iff, Visit.ty?_of_name hs, hr]
    exact ⟨fun h => (Standing.ty?_eq_some_iff _ _).1 h.2,
      fun h => ⟨rfl, (Standing.ty?_eq_some_iff _ _).2 h⟩⟩
  · intro hd v hv name ty hr hs
    rw [Program.getElem?_types hd hv, Visit.ty?_of_name hs, hr]
    exact Standing.ty?_eq_some_iff _ _

theorem types_eq_flatTypes_rebound :
    (rebound.nodes.map Expr.id).Nodup ∧
    (∀ v ∈ rebound.visits, ∀ name ty, v.role = .read → v.expr.shape = .name name →
      (rebound.types[v.expr.id]? = some ty ↔ v.env name = .typed ty)) ∧
    rebound.flatTypes.toList = [(1, .int), (3, .int), (4, .int), (7, .int), (10, .int),
      (13, .string), (15, .int), (16, .string), (17, .dict), (19, .dict), (20, .depset)] := by
  have h : (rebound.nodes.map Expr.id).Nodup := by decide +kernel
  exact ⟨h, (types_eq_flatTypes rebound).2.2.2.2 h, by decide +kernel⟩

/-- What the types of its operands ask of the type of an expression. A bare name may have any. -/
def Expr.SolvedBy (types : TypeMap) (e : Expr) : Prop :=
  match e.shape with
  | .name _ => True
  | .literal value => types[e.id]? = Ty.ofLiteral? value
  | .dict _ | .dictComp _ _ => types[e.id]? = some .dict
  | .call callee _ => types[e.id]? = callee.asName?.bind Ty.ofBuiltin?
  | .binary _ left right => types[e.id]? = Ty.combine types[left.id]? types[right.id]?
  | .list _ | .tuple _ | .listComp _ _ | .unary _ _ | .member _ _ | .index _ _ | .slice _ _ _ _
  | .conditional _ _ _ => types[e.id]? = none

/-- The types solve the equations of all nodes, leave out the names that are bound, belong to
nodes, and were each recorded once. -/
structure Program.Solution (p : Program) (types : TypeMap) (recordings : List (Nat × Ty)) :
    Prop where
  equation : ∀ e ∈ p.nodes, e.SolvedBy types
  binder : ∀ target ∈ p.targets, ∀ b ∈ target.binders, types[b.id]? = none
  node : ∀ id ∈ types, ∃ e ∈ p.nodes, e.id = id
  once : recordings.Perm types.toList

namespace Program

theorem solvedBy_types {p : Program} (h : (p.nodes.map Expr.id).Nodup) {e : Expr}
    (he : e ∈ p.nodes) : e.SolvedBy p.types := by
  obtain ⟨v, hv, rfl⟩ := exists_visit_of_mem_nodes he
  have htype := getElem?_types h hv
  have hparts := p.closed_visits v hv
  obtain ⟨⟨id, span, shape⟩, role, env⟩ := v
  cases shape with
  | name => trivial
  | binary op left right =>
    have hleft : ⟨left, .read, env⟩ ∈ p.visits :=
      hparts (List.mem_append_left _ (Visits.self_mem_ofExpr env .read left))
    have hright : ⟨right, .read, env⟩ ∈ p.visits :=
      hparts (List.mem_append_right _ (Visits.self_mem_ofExpr env .read right))
    have hl := getElem?_types h hleft
    have hr := getElem?_types h hright
    simp only at htype hl hr
    simp only [Expr.SolvedBy, htype, hl, hr]
    cases role <;> rfl
  | _ => cases role <;> exact htype

theorem getElem?_types_of_binder {p : Program} (h : (p.nodes.map Expr.id).Nodup) {target b : Expr}
    (ht : target ∈ p.targets) (hb : b ∈ target.binders) : p.types[b.id]? = none := by
  obtain ⟨env, hv⟩ := exists_visit_of_mem_targets ht
  have hbv := p.closed_visits.ofExpr_subset hv (Visits.binders_mem env target b hb)
  obtain ⟨name, hn⟩ := Expr.shape_of_mem_binders hb
  rw [getElem?_types h hbv, Visit.ty?_of_name hn]

theorem exists_node_of_mem_types {p : Program} {id : Nat} (hid : id ∈ p.types) :
    ∃ e ∈ p.nodes, e.id = id := by
  by_contra hno
  have hv : id ∉ p.visits.map fun v => v.expr.id := by
    intro hm
    obtain ⟨v, hv, rfl⟩ := List.mem_map.1 hm
    exact hno ⟨v.expr, p.visits_perm.mem_iff.1 (List.mem_map_of_mem hv), rfl⟩
  rw [p.inference_eq.1, flatTypes, ← Std.TreeMap.isSome_getElem?_iff_mem,
    Visit.getElem?_foldl_record_of_notMem hv] at hid
  simp at hid

/-- Where all ids differ, the types of a program solve the equations of all its nodes. -/
theorem solution_types (p : Program) (h : (p.nodes.map Expr.id).Nodup) :
    p.Solution p.types p.recordings where
  equation _ he := solvedBy_types h he
  binder _ ht _ hb := getElem?_types_of_binder h ht hb
  node _ hid := exists_node_of_mem_types hid
  once := recordings_perm h

theorem solution_types_rebound :
    (rebound.nodes.map Expr.id).Nodup ∧ rebound.Solution rebound.types rebound.recordings ∧
    rebound.types.toList = [(1, .int), (3, .int), (4, .int), (7, .int), (10, .int),
      (13, .string), (15, .int), (16, .string), (17, .dict), (19, .dict), (20, .depset)] :=
  ⟨by decide +kernel, solution_types rebound (by decide +kernel), by decide +kernel⟩

end Program

end BuildTyping
