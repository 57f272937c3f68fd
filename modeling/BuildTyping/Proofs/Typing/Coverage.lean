import BuildTyping.Proofs.Typing.Flat

/-!
# What the flat evaluation visits

The visits of a program are its nodes, each exactly once, and from every node they go on to its
parts. A part of a node other than a comprehension is visited in the environment of the node.
-/

namespace BuildTyping

namespace Visits

mutual

theorem ofExpr_perm (env : Environment) (role : Role) : (e : Expr) →
    ((ofExpr env role e).map Visit.expr).Perm e.nodes
  | ⟨id, span, shape⟩ => by
    rw [ofExpr, Expr.nodes_eq, List.map_append]
    exact List.perm_append_comm.trans ((ofShape_perm env role shape).cons _)

theorem ofShape_perm (env : Environment) (role : Role) : (shape : Shape Expr) →
    ((ofShape env role shape).map Visit.expr).Perm (shape.parts.flatMap Expr.nodes)
  | .literal _ | .name _ => .nil
  | .list elements | .tuple elements => ofExprs_perm env role elements
  | .dict entries => ofEntries_perm env entries
  | .listComp element clauses => by
    rw [ofShape, List.map_append]
    exact List.perm_append_comm.trans
      ((ofExpr_perm _ .read element).append (ofClauses_perm env clauses))
  | .dictComp ⟨key, value⟩ clauses => by
    simp only [ofShape, List.map_append, Shape.parts, Entry.parts, List.cons_append,
      List.nil_append, List.flatMap_cons, ← List.append_assoc]
    rw [List.append_assoc]
    exact List.perm_append_comm.trans (((ofExpr_perm _ .read key).append
      (ofExpr_perm _ .read value)).append (ofClauses_perm env clauses))
  | .call callee arguments => by
    rw [ofShape, List.map_append]
    exact (ofExpr_perm env .read callee).append (ofArguments_perm env arguments)
  | .binary _ left right => by
    simp only [ofShape, List.map_append, Shape.parts, List.flatMap_cons, List.flatMap_nil,
      List.append_nil]
    exact (ofExpr_perm env .read left).append (ofExpr_perm env .read right)
  | .unary _ operand => by
    simpa [ofShape, Shape.parts] using ofExpr_perm env .read operand
  | .member object _ => by
    simpa [ofShape, Shape.parts] using ofExpr_perm env .read object
  | .index object key => by
    simp only [ofShape, List.map_append, Shape.parts, List.flatMap_cons, List.flatMap_nil,
      List.append_nil]
    exact (ofExpr_perm env .read object).append (ofExpr_perm env .read key)
  | .slice object lower upper step => by
    simp only [ofShape, List.map_append, Shape.parts, List.flatMap_cons, List.flatMap_append,
      List.append_assoc]
    exact (ofExpr_perm env .read object).append ((ofBound_perm env lower).append
      ((ofBound_perm env upper).append (ofBound_perm env step)))
  | .conditional whenTrue condition whenFalse => by
    simp only [ofShape, List.map_append, Shape.parts, List.flatMap_cons, List.flatMap_nil,
      List.append_nil]
    exact (ofExpr_perm env .read whenTrue).append ((ofExpr_perm env .read condition).append
      (ofExpr_perm env .read whenFalse))

theorem ofExprs_perm (env : Environment) (role : Role) : (es : List Expr) →
    ((ofExprs env role es).map Visit.expr).Perm (es.flatMap Expr.nodes)
  | [] => .nil
  | e :: es => by
    rw [ofExprs, List.map_append, List.flatMap_cons]
    exact (ofExpr_perm env role e).append (ofExprs_perm env role es)

theorem ofBound_perm (env : Environment) : (bound : Option Expr) →
    ((ofBound env bound).map Visit.expr).Perm (bound.toList.flatMap Expr.nodes)
  | none => .nil
  | some e => by simpa [ofBound] using ofExpr_perm env .read e

theorem ofEntries_perm (env : Environment) : (entries : List (Entry Expr)) →
    ((ofEntries env entries).map Visit.expr).Perm ((entries.flatMap Entry.parts).flatMap Expr.nodes)
  | [] => .nil
  | ⟨key, value⟩ :: entries => by
    simp only [ofEntries, List.map_append, List.flatMap_cons, Entry.parts, List.cons_append,
      List.nil_append]
    exact (ofExpr_perm env .read key).append
      ((ofExpr_perm env .read value).append (ofEntries_perm env entries))

theorem ofArguments_perm (env : Environment) : (arguments : List (Argument Expr)) →
    ((ofArguments env arguments).map Visit.expr).Perm
      ((arguments.map Argument.value).flatMap Expr.nodes)
  | [] => .nil
  | .positional value :: arguments | .keyword _ _ value :: arguments
  | .unpack value :: arguments | .unpackKeywords value :: arguments => by
    rw [ofArguments, List.map_append, List.map_cons, List.flatMap_cons]
    exact (ofExpr_perm env .read value).append (ofArguments_perm env arguments)

theorem ofClauses_perm (env : Environment) : (clauses : List (Clause Expr)) →
    ((ofClauses env clauses).map Visit.expr).Perm
      ((clauses.flatMap Clause.parts).flatMap Expr.nodes)
  | [] => .nil
  | .each target iterable :: clauses => by
    simp only [ofClauses, List.map_append, List.flatMap_cons, Clause.parts, List.cons_append,
      List.nil_append, ← List.append_assoc]
    exact (List.perm_append_comm.trans ((ofExpr_perm env .target target).append
      (ofExpr_perm env .read iterable))).append (ofClauses_perm _ clauses)
  | .only condition :: clauses => by
    simp only [ofClauses, List.map_append, List.flatMap_cons, Clause.parts, List.cons_append,
      List.nil_append]
    exact (ofExpr_perm env .read condition).append (ofClauses_perm env clauses)

end

theorem ofParameters_perm (env : Environment) (parameters : List Parameter) :
    ((ofParameters env parameters).map Visit.expr).Perm
      ((parameters.filterMap Parameter.default).flatMap Expr.nodes) := by
  induction parameters with
  | nil => exact .nil
  | cons p parameters ih =>
    rw [ofParameters, List.map_append]
    cases hd : p.default with
    | none => simpa [hd, ofBound] using ih
    | some value =>
      simp only [List.filterMap_cons, hd, List.flatMap_cons]
      exact (ofExpr_perm env .read value).append ih

mutual

theorem ofStmt_perm (env : Environment) : (s : Stmt) →
    ((ofStmt env s).map Visit.expr).Perm s.nodes
  | ⟨_, .expression value⟩ => by
    simpa [ofStmt, Stmt.nodes, Stmt.roots_eq, Form.exprs, Form.bodies]
      using ofExpr_perm env .read value
  | ⟨_, .assign target value⟩ => by
    simp only [ofStmt, List.map_append, Stmt.nodes, Stmt.roots_eq, Form.exprs, Form.bodies,
      List.flatMap_cons, List.flatMap_nil, List.append_nil]
    exact List.perm_append_comm.trans
      ((ofExpr_perm env .target target).append (ofExpr_perm env .read value))
  | ⟨_, .augment _ target value⟩ => by
    simp only [ofStmt, List.map_append, Stmt.nodes, Stmt.roots_eq, Form.exprs, Form.bodies,
      List.flatMap_cons, List.flatMap_nil, List.append_nil]
    exact (ofExpr_perm env .read target).append (ofExpr_perm env .read value)
  | ⟨_, .define _ parameters body⟩ => by
    simp only [ofStmt, List.map_append, Stmt.nodes, Stmt.roots_eq, Form.exprs, Form.bodies,
      List.flatMap_append]
    exact (ofParameters_perm env parameters).append (ofBlock_perm _ body)
  | ⟨_, .return_ value⟩ => by
    simpa [ofStmt, Stmt.nodes, Stmt.roots_eq, Form.exprs, Form.bodies] using ofBound_perm env value
  | ⟨_, .branch condition body other⟩ => by
    simp only [ofStmt, List.map_append, Stmt.nodes, Stmt.roots_eq, Form.exprs, Form.bodies,
      List.flatMap_append, List.flatMap_cons, List.flatMap_nil, List.append_nil]
    exact (ofExpr_perm env .read condition).append
      ((ofBlock_perm env body).append (ofBlock_perm _ other))
  | ⟨_, .loop target iterable body⟩ => by
    simp only [ofStmt, List.map_append, Stmt.nodes, Stmt.roots_eq, Form.exprs, Form.bodies,
      List.flatMap_append, List.flatMap_cons, List.flatMap_nil, List.append_nil,
      ← List.append_assoc]
    exact (List.perm_append_comm.trans ((ofExpr_perm env .target target).append
      (ofExpr_perm env .read iterable))).append (ofBlock_perm _ body)
  | ⟨_, .pass⟩ | ⟨_, .break_⟩ | ⟨_, .continue_⟩ => by
    simp [ofStmt, Stmt.nodes, Stmt.roots_eq, Form.exprs, Form.bodies]

theorem ofBlock_perm (env : Environment) : (block : List Stmt) →
    ((ofBlock env block).map Visit.expr).Perm ((block.flatMap Stmt.roots).flatMap Expr.nodes)
  | [] => .nil
  | s :: block => by
    rw [ofBlock, List.map_append, List.flatMap_cons, List.flatMap_append]
    exact (ofStmt_perm env s).append (ofBlock_perm _ block)

end

/-- With a visit, all visits within it are among these. -/
def Closed (visits : List Visit) : Prop :=
  ∀ v ∈ visits, ofShape v.env v.role v.expr.shape ⊆ visits

theorem closed_nil : Closed [] := by simp [Closed]

theorem Closed.append {first second : List Visit} (hf : Closed first) (hs : Closed second) :
    Closed (first ++ second) := by
  intro v hv
  rcases List.mem_append.1 hv with h | h
  · exact List.Subset.trans (hf v h) (List.subset_append_left _ _)
  · exact List.Subset.trans (hs v h) (List.subset_append_right _ _)

mutual

theorem closed_ofExpr (env : Environment) (role : Role) : (e : Expr) → Closed (ofExpr env role e)
  | ⟨id, span, shape⟩ => by
    intro v hv
    rcases List.mem_append.1 hv with h | h
    · exact List.Subset.trans (closed_ofShape env role shape v h) (List.subset_append_left _ _)
    · rw [List.mem_singleton.1 h]
      exact List.subset_append_left _ _

theorem closed_ofShape (env : Environment) (role : Role) : (shape : Shape Expr) →
    Closed (ofShape env role shape)
  | .literal _ | .name _ => closed_nil
  | .list elements | .tuple elements => closed_ofExprs env role elements
  | .dict entries => closed_ofEntries env entries
  | .listComp element clauses =>
    (closed_ofClauses env clauses).append (closed_ofExpr _ .read element)
  | .dictComp ⟨key, value⟩ clauses =>
    (closed_ofClauses env clauses).append
      ((closed_ofExpr _ .read key).append (closed_ofExpr _ .read value))
  | .call callee arguments =>
    (closed_ofExpr env .read callee).append (closed_ofArguments env arguments)
  | .binary _ left right => (closed_ofExpr env .read left).append (closed_ofExpr env .read right)
  | .unary _ operand => closed_ofExpr env .read operand
  | .member object _ => closed_ofExpr env .read object
  | .index object key => (closed_ofExpr env .read object).append (closed_ofExpr env .read key)
  | .slice object lower upper step =>
    (closed_ofExpr env .read object).append ((closed_ofBound env lower).append
      ((closed_ofBound env upper).append (closed_ofBound env step)))
  | .conditional whenTrue condition whenFalse =>
    (closed_ofExpr env .read whenTrue).append
      ((closed_ofExpr env .read condition).append (closed_ofExpr env .read whenFalse))

theorem closed_ofExprs (env : Environment) (role : Role) : (es : List Expr) →
    Closed (ofExprs env role es)
  | [] => closed_nil
  | e :: es => (closed_ofExpr env role e).append (closed_ofExprs env role es)

theorem closed_ofBound (env : Environment) : (bound : Option Expr) → Closed (ofBound env bound)
  | none => closed_nil
  | some e => closed_ofExpr env .read e

theorem closed_ofEntries (env : Environment) : (entries : List (Entry Expr)) →
    Closed (ofEntries env entries)
  | [] => closed_nil
  | ⟨key, value⟩ :: entries =>
    (closed_ofExpr env .read key).append
      ((closed_ofExpr env .read value).append (closed_ofEntries env entries))

theorem closed_ofArguments (env : Environment) : (arguments : List (Argument Expr)) →
    Closed (ofArguments env arguments)
  | [] => closed_nil
  | .positional value :: arguments | .keyword _ _ value :: arguments
  | .unpack value :: arguments | .unpackKeywords value :: arguments =>
    (closed_ofExpr env .read value).append (closed_ofArguments env arguments)

theorem closed_ofClauses (env : Environment) : (clauses : List (Clause Expr)) →
    Closed (ofClauses env clauses)
  | [] => closed_nil
  | .each target iterable :: clauses =>
    (closed_ofExpr env .read iterable).append
      ((closed_ofExpr env .target target).append (closed_ofClauses _ clauses))
  | .only condition :: clauses =>
    (closed_ofExpr env .read condition).append (closed_ofClauses env clauses)

end

theorem closed_ofParameters (env : Environment) (parameters : List Parameter) :
    Closed (ofParameters env parameters) := by
  induction parameters with
  | nil => exact closed_nil
  | cons p parameters ih => exact (closed_ofBound env p.default).append ih

mutual

theorem closed_ofStmt (env : Environment) : (s : Stmt) → Closed (ofStmt env s)
  | ⟨_, .expression value⟩ => closed_ofExpr env .read value
  | ⟨_, .assign target value⟩ =>
    (closed_ofExpr env .read value).append (closed_ofExpr env .target target)
  | ⟨_, .augment _ target value⟩ =>
    (closed_ofExpr env .read target).append (closed_ofExpr env .read value)
  | ⟨_, .define _ parameters body⟩ =>
    (closed_ofParameters env parameters).append (closed_ofBlock _ body)
  | ⟨_, .return_ value⟩ => closed_ofBound env value
  | ⟨_, .branch condition body other⟩ =>
    (closed_ofExpr env .read condition).append
      ((closed_ofBlock env body).append (closed_ofBlock _ other))
  | ⟨_, .loop target iterable body⟩ =>
    (closed_ofExpr env .read iterable).append
      ((closed_ofExpr env .target target).append (closed_ofBlock _ body))
  | ⟨_, .pass⟩ | ⟨_, .break_⟩ | ⟨_, .continue_⟩ => closed_nil

theorem closed_ofBlock (env : Environment) : (block : List Stmt) → Closed (ofBlock env block)
  | [] => closed_nil
  | s :: block => (closed_ofStmt env s).append (closed_ofBlock _ block)

end

theorem self_mem_ofExpr (env : Environment) (role : Role) (e : Expr) :
    ⟨e, role, env⟩ ∈ ofExpr env role e := by
  obtain ⟨id, span, shape⟩ := e
  simp [ofExpr]

theorem Closed.ofExpr_subset {visits : List Visit} (h : Closed visits) {v : Visit}
    (hv : v ∈ visits) : ofExpr v.env v.role v.expr ⊆ visits := by
  obtain ⟨⟨id, span, shape⟩, role, env⟩ := v
  exact List.append_subset.2 ⟨h _ hv, by simpa using hv⟩

mutual

/-- The names that a target binds are visited as targets themselves. -/
theorem binders_mem (env : Environment) : (target : Expr) →
    ∀ b ∈ target.binders, ⟨b, .target, env⟩ ∈ ofExpr env .target target
  | ⟨_, _, .name _⟩ => by
    intro b hb
    rw [List.mem_singleton.1 hb]
    exact self_mem_ofExpr env .target _
  | ⟨_, _, .tuple elements⟩ | ⟨_, _, .list elements⟩ =>
    fun b hb => List.mem_append_left _ (bindersIn_mem env elements b hb)
  | ⟨_, _, .literal _⟩ | ⟨_, _, .dict _⟩ | ⟨_, _, .listComp _ _⟩ | ⟨_, _, .dictComp _ _⟩
  | ⟨_, _, .call _ _⟩ | ⟨_, _, .binary _ _ _⟩ | ⟨_, _, .unary _ _⟩ | ⟨_, _, .member _ _⟩
  | ⟨_, _, .index _ _⟩ | ⟨_, _, .slice _ _ _ _⟩ | ⟨_, _, .conditional _ _ _⟩ => by
    simp [Expr.binders]

theorem bindersIn_mem (env : Environment) : (targets : List Expr) →
    ∀ b ∈ Expr.bindersIn targets, ⟨b, .target, env⟩ ∈ ofExprs env .target targets
  | [] => by simp [Expr.bindersIn]
  | e :: es => by
    intro b hb
    rcases List.mem_append.1 hb with h | h
    · exact List.mem_append_left _ (binders_mem env e b h)
    · exact List.mem_append_right _ (bindersIn_mem env es b h)

end

/-- The targets of a comprehension are visited as targets. -/
theorem exists_ofClauses_of_target {target : Expr} {clauses : List (Clause Expr)}
    (env : Environment) (h : target ∈ clauses.filterMap Clause.target?) :
    ∃ inner, ⟨target, .target, inner⟩ ∈ ofClauses env clauses := by
  induction clauses generalizing env with
  | nil => simp at h
  | cons clause clauses ih =>
    cases clause with
    | each t iterable =>
      rcases List.mem_cons.1 h with rfl | h
      · exact ⟨env,
          List.mem_append_right _ (List.mem_append_left _ (self_mem_ofExpr env .target _))⟩
      · obtain ⟨inner, hi⟩ := ih (env.declareAll t.boundNames) h
        exact ⟨inner, List.mem_append_right _ (List.mem_append_right _ hi)⟩
    | only condition =>
      obtain ⟨inner, hi⟩ := ih env h
      exact ⟨inner, List.mem_append_right _ hi⟩

theorem exists_ofShape_of_target {target : Expr} {shape : Shape Expr} (env : Environment)
    (role : Role) (h : target ∈ shape.targets) :
    ∃ inner, ⟨target, .target, inner⟩ ∈ ofShape env role shape := by
  cases shape with
  | listComp element clauses =>
    obtain ⟨inner, hi⟩ := exists_ofClauses_of_target env h
    exact ⟨inner, List.mem_append_left _ hi⟩
  | dictComp entry clauses =>
    obtain ⟨inner, hi⟩ := exists_ofClauses_of_target env h
    exact ⟨inner, List.mem_append_left _ hi⟩
  | _ => simp [Shape.targets] at h

mutual

/-- The targets of all statements within a statement are visited as targets. -/
theorem exists_ofStmt_of_target {target : Expr} (env : Environment) : (s : Stmt) →
    target ∈ s.nested.flatMap (fun inner => inner.form.targets) →
    ∃ inner, ⟨target, .target, inner⟩ ∈ ofStmt env s
  | ⟨_, .expression _⟩, h | ⟨_, .augment _ _ _⟩, h | ⟨_, .return_ _⟩, h | ⟨_, .pass⟩, h
  | ⟨_, .break_⟩, h | ⟨_, .continue_⟩, h => by
    simp [Stmt.nested_eq, Form.bodies, Form.targets] at h
  | ⟨_, .assign t value⟩, h => by
    obtain rfl : target = t := by
      simpa [Stmt.nested_eq, Form.bodies, Form.targets] using h
    exact ⟨env, List.mem_append_right _ (self_mem_ofExpr env .target _)⟩
  | ⟨_, .define _ parameters body⟩, h => by
    simp only [Stmt.nested_eq, Form.bodies, Form.targets, List.flatMap_cons, List.nil_append] at h
    obtain ⟨inner, hi⟩ := exists_ofBlock_of_target (env.within parameters) body h
    exact ⟨inner, List.mem_append_right _ hi⟩
  | ⟨_, .branch condition body other⟩, h => by
    simp only [Stmt.nested_eq, Form.bodies, Form.targets, List.flatMap_cons, List.nil_append,
      List.flatMap_append, List.mem_append] at h
    rcases h with h | h
    · obtain ⟨inner, hi⟩ := exists_ofBlock_of_target env body h
      exact ⟨inner, List.mem_append_right _ (List.mem_append_left _ hi)⟩
    · obtain ⟨inner, hi⟩ := exists_ofBlock_of_target (env.afterBlock body) other h
      exact ⟨inner, List.mem_append_right _ (List.mem_append_right _ hi)⟩
  | ⟨_, .loop t iterable body⟩, h => by
    simp only [Stmt.nested_eq, Form.bodies, Form.targets, List.flatMap_cons, List.cons_append,
      List.nil_append, List.mem_cons] at h
    rcases h with rfl | h
    · exact ⟨env, List.mem_append_right _ (List.mem_append_left _ (self_mem_ofExpr env .target _))⟩
    · obtain ⟨inner, hi⟩ := exists_ofBlock_of_target (env.declareAll t.boundNames) body h
      exact ⟨inner, List.mem_append_right _ (List.mem_append_right _ hi)⟩

theorem exists_ofBlock_of_target {target : Expr} (env : Environment) : (block : List Stmt) →
    target ∈ (block.flatMap Stmt.nested).flatMap (fun inner => inner.form.targets) →
    ∃ inner, ⟨target, .target, inner⟩ ∈ ofBlock env block
  | [], h => by simp at h
  | s :: block, h => by
    rw [List.flatMap_cons, List.flatMap_append, List.mem_append] at h
    rcases h with h | h
    · obtain ⟨inner, hi⟩ := exists_ofStmt_of_target env s h
      exact ⟨inner, List.mem_append_left _ hi⟩
    · obtain ⟨inner, hi⟩ := exists_ofBlock_of_target (env.after s) block h
      exact ⟨inner, List.mem_append_right _ hi⟩

end

end Visits

namespace Program

/-- The visits of a program are its nodes, each exactly once. -/
theorem visits_perm (p : Program) : (p.visits.map Visit.expr).Perm p.nodes :=
  Visits.ofBlock_perm .empty p.body

theorem closed_visits (p : Program) : Visits.Closed p.visits :=
  Visits.closed_ofBlock .empty p.body

theorem exists_visit_of_mem_nodes {p : Program} {e : Expr} (h : e ∈ p.nodes) :
    ∃ v ∈ p.visits, v.expr = e :=
  List.mem_map.1 (p.visits_perm.mem_iff.2 h)

/-- Every target of a program is visited as a target. -/
theorem exists_visit_of_mem_targets {p : Program} {target : Expr} (h : target ∈ p.targets) :
    ∃ env, ⟨target, .target, env⟩ ∈ p.visits := by
  rcases List.mem_append.1 h with h | h
  · exact Visits.exists_ofBlock_of_target .empty p.body h
  · obtain ⟨e, he, ht⟩ := List.mem_flatMap.1 h
    obtain ⟨v, hv, rfl⟩ := exists_visit_of_mem_nodes he
    obtain ⟨inner, hi⟩ := Visits.exists_ofShape_of_target v.env v.role ht
    exact ⟨inner, p.closed_visits v hv hi⟩

end Program

end BuildTyping
