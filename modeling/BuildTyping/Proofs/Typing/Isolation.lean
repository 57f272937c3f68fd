import BuildTyping.Proofs.Typing.Counterpart

/-!
# Nothing leaks out of a scope

What is inside a comprehension or a function has no part in the types outside, and neither have the
statements that bind no name where they stand. Programs that differ in these alone give the same
type to every node that they have in common.
-/

namespace BuildTyping

mutual

theorem Expr.Alike.same : ∀ {e e' : Expr} {ids : List Nat}, e.Alike e' ids → e.Same .refl e' ids
  | _, _, _, .node frame parts =>
    .of_frame (by rw [Renaming.apply_refl, Shape.rename_id, frame]) parts.same
  | _, _, _, .listComp _ _ lead =>
    Expr.Same.of_parts rfl rfl (fun _ _ => rfl) fun env _ => (lead.visits env).append_any
  | _, _, _, .dictComp _ _ lead =>
    Expr.Same.of_parts rfl rfl (fun _ role => by cases role <;> rfl) fun env _ =>
      (lead.visits env).append_any

theorem Expr.AllAlike.same : ∀ {es es' : List Expr} {ids : List Nat},
    Expr.AllAlike es es' ids → Expr.AllSame .refl es es' ids
  | _, _, _, .nil => .nil
  | _, _, _, .cons first rest => .cons first.same rest.same

/-- Each alike clause leads to the environment in which the next ones are visited. -/
theorem Clause.LeadAlike.visits : ∀ {clauses clauses' : List (Clause Expr)} {ids : List Nat},
    Clause.LeadAlike clauses clauses' ids → ∀ env : Environment,
      Visits.Agree ids (Visits.ofClauses (env.along .refl) clauses) (Visits.ofClauses env clauses')
  | _, _, _, .any .., _ => .nil
  | _, _, _, .over _ _ _ _ iterable, env => (iterable.same.visits env .read).append_any
  | _, .each t' _ :: _, _, .each target iterable rest, env => by
    have htarget := target.same
    have hrest := rest.visits (env.declareAll t'.boundNames)
    rw [htarget.declareAll] at hrest
    rw [Visits.ofClauses, Visits.ofClauses, ← List.append_assoc, ← List.append_assoc]
    exact ((htarget.visits env .target).append_comm (iterable.same.visits env .read)).append hrest
  | _, _, _, .only condition rest, env =>
    (condition.same.visits env .read).append (rest.visits env)

end

/-- Parameters of the same names with like defaults play the same part. -/
theorem Parameter.AllAlike.same {ps ps' : List Parameter} {ids : List Nat}
    (h : AllAlike ps ps' ids) : AllSame .refl ps ps' ids := by
  induction h with
  | nil => exact .nil
  | cons name default rest ih => exact .cons name default.same ih

/-- An inert statement hands on the environment that it was given. -/
theorem Environment.after_of_isInert {s : Stmt} (h : s.isInert = true) (env : Environment) :
    env.after s = env := by
  obtain ⟨span, form⟩ := s
  cases form <;> first | rfl | simp [Stmt.isInert] at h

mutual

/-- Like statements have the same effect on the environment. -/
theorem Stmt.Alike.same : ∀ {s s' : Stmt} {ids : List Nat}, s.Alike s' ids →
    Stmt.Same .refl s s' ids
  | _, _, _, .expression value => .expression value.same
  | _, _, _, .assign target value => .assign target.same value.same
  | _, _, _, .augment op target value => .augment op op target.same value.same
  | _, _, _, .return_ value => .return_ value.same
  | _, _, _, .branch condition body other => .branch condition.same body.same other.same
  | _, _, _, .loop target iterable body => .loop target.same iterable.same body.same
  | _, _, _, .define name parameters body => .define name name parameters.same body.same
  | _, _, _, .redefine name body body' defaults => fun env => by
    have hdefaults := defaults.same.visits env .read
    rw [← Visits.ofParameters_eq, ← Visits.ofParameters_eq] at hdefaults
    exact ⟨rfl, hdefaults.append_any⟩

theorem Stmt.BlockAlike.same : ∀ {ss ss' : List Stmt} {ids : List Nat}, BlockAlike ss ss' ids →
    Stmt.BlockSame .refl ss ss' ids
  | _, _, _, .nil => .nil
  | _, _, _, .cons first rest => .cons first.same rest.same
  | _, _, _, .removed inert rest => fun env => by
    obtain ⟨hafter, hvisits⟩ := rest.same env
    rw [Environment.afterBlock, Visits.ofBlock, Environment.after_of_isInert inert]
    exact ⟨hafter, hvisits.append_left⟩
  | _, _, _, .inserted inert rest => fun env => by
    obtain ⟨hafter, hvisits⟩ := rest.same env
    rw [Environment.afterBlock, Visits.ofBlock, Environment.after_of_isInert inert]
    exact ⟨hafter, hvisits.append_right⟩

end

namespace Program

/-- Where all ids differ in each of two programs that are alike, every node in common has the same
type in both, or none in both. -/
theorem types_eq_of_alike {p p' : Program} {ids : List Nat} (h : Stmt.BlockAlike p.body p'.body ids)
    (hp : (p.nodes.map Expr.id).Nodup) (hp' : (p'.nodes.map Expr.id).Nodup) :
    ∀ id ∈ ids, (∃ e ∈ p.nodes, e.id = id) ∧ (∃ e' ∈ p'.nodes, e'.id = id) ∧
      p.types[id]? = p'.types[id]? := by
  intro id hid
  obtain ⟨v, hv, v', hv', rfl, hid', htype⟩ := (h.same .empty).2 id hid
  have hmem : v.expr ∈ p.nodes := p.visits_perm.mem_iff.1 (List.mem_map_of_mem hv)
  have hmem' : v'.expr ∈ p'.nodes := p'.visits_perm.mem_iff.1 (List.mem_map_of_mem hv')
  refine ⟨⟨_, hmem, rfl⟩, ⟨_, hmem', hid'⟩, ?_⟩
  rw [getElem?_types hp hv, ← hid', getElem?_types hp' hv', htype]

/-- A comprehension and a function are changed inside, where `x` is bound anew, and an assignment
that only adds to `x` is inserted. The first clause of the comprehension and the last line have the
same types before and after. -/
theorem types_eq_of_alike_shadowed :
    let name (id : Nat) (label : String) : Expr := ⟨id, default, .name label⟩
    let literal (id : Nat) (value : Literal) : Expr := ⟨id, default, .literal value⟩
    let first : Stmt := ⟨default, .assign (name 0 "x") (literal 1 (.int 1))⟩
    let last : Stmt := ⟨default, .expression ⟨10, default, .binary .add (name 8 "x") (name 9 "y")⟩⟩
    let bound : Parameter := ⟨"a", .normal, some (name 2 "x"), default⟩
    let p : Program := ⟨[first, ⟨default, .define "f" [bound] [⟨default, .return_ (name 3 "a")⟩]⟩,
      ⟨default, .expression ⟨7, default, .listComp (name 4 "x") [.each (name 5 "z") (name 6 "x")]⟩⟩,
      last], default, "BUILD"⟩
    let p' : Program := ⟨[first, ⟨default, .define "f" [⟨"b", .normal, none, default⟩, bound]
        [⟨default, .assign (name 11 "x") (literal 12 (.string "s"))⟩]⟩,
      ⟨default, .augment .add (name 13 "x") (literal 14 (.string "t"))⟩,
      ⟨default, .expression ⟨7, default, .listComp (literal 15 (.string "u"))
        [.each (name 5 "z") (name 6 "x"), .each (name 16 "x") (literal 17 (.string "v"))]⟩⟩,
      last], default, "BUILD"⟩
    (p.nodes.map Expr.id).Nodup ∧ (p'.nodes.map Expr.id).Nodup ∧
    (∀ id ∈ [0, 1, 2, 7, 5, 6, 10, 8, 9], p.types[id]? = p'.types[id]?) ∧
    p.types.toList = [(1, .int), (2, .int), (3, .int), (4, .int), (6, .int), (8, .int), (10, .int)]
    := by
  intro name literal first last bound p p'
  have hp : (p.nodes.map Expr.id).Nodup := by decide +kernel
  have hp' : (p'.nodes.map Expr.id).Nodup := by decide +kernel
  obtain ⟨ids, h, hids⟩ : ∃ ids, Stmt.BlockAlike p.body p'.body ids ∧
      ids = [0, 1, 2, 7, 5, 6, 10, 8, 9] :=
    ⟨_, .cons (.assign (Expr.alike_refl _) (Expr.alike_refl _))
      (.cons (.redefine "f" _ _ (.cons (Expr.alike_refl _) .nil))
        (.inserted rfl (.cons (.expression (.listComp _ _
            (.each (Expr.alike_refl _) (Expr.alike_refl _) (.any ..))))
          (.cons (.expression (Expr.alike_refl _)) .nil)))), by decide +kernel⟩
  subst hids
  exact ⟨hp, hp', fun id hid => (types_eq_of_alike h hp hp' id hid).2.2, by decide +kernel⟩

end Program

end BuildTyping
