import BuildTyping.Proofs.Typing.Run

/-!
# Inference agrees with the flat account

Every part of the inference, run in scopes that stand for an environment, records what the flat
evaluation finds in that environment. Expressions leave the scopes as they were, and statements
change the innermost scope as they change the environment.
-/

namespace BuildTyping

namespace Infer

open Visits

mutual

theorem declareTarget_changes (scopes : Scopes) : (target : Expr) →
    Changes scopes (declareTarget target) (scopes.environment.declareAll target.boundNames) []
  | ⟨_, _, .name name⟩ => changes_declare name
  | ⟨_, _, .tuple elements⟩ | ⟨_, _, .list elements⟩ => declareTargets_changes scopes elements
  | ⟨_, _, .literal _⟩ | ⟨_, _, .dict _⟩ | ⟨_, _, .listComp _ _⟩ | ⟨_, _, .dictComp _ _⟩
  | ⟨_, _, .call _ _⟩ | ⟨_, _, .binary _ _ _⟩ | ⟨_, _, .unary _ _⟩ | ⟨_, _, .member _ _⟩
  | ⟨_, _, .index _ _⟩ | ⟨_, _, .slice _ _ _ _⟩ | ⟨_, _, .conditional _ _ _⟩ =>
    (runs_pure ()).changes

theorem declareTargets_changes (scopes : Scopes) : (targets : List Expr) →
    Changes scopes (declareTargets targets)
      (scopes.environment.declareAll ((Expr.bindersIn targets).filterMap Expr.asName?)) []
  | [] => (runs_pure ()).changes
  | e :: es => by
    rw [Expr.bindersIn, List.filterMap_append, Environment.declareAll_append]
    refine (declareTarget_changes scopes e).bind fun middle he => ?_
    rw [← Expr.boundNames, ← he]
    exact declareTargets_changes middle es

end

mutual

/-- An expression is typed as in the flat environment, and leaves the scopes as they were. -/
theorem resolve_runs (scopes : Scopes) (role : Role) : (e : Expr) →
    Runs scopes (resolve role e) (e.typeIn scopes.environment role) scopes
      (ofExpr scopes.environment role e)
  | ⟨id, span, shape⟩ =>
    (resolveShape_runs scopes role id span shape).bind
      (runs_record ⟨⟨id, span, shape⟩, role, scopes.environment⟩)

theorem resolveShape_runs (scopes : Scopes) (role : Role) (id : Nat) (span : Span) :
    (shape : Shape Expr) →
    Runs scopes (resolveShape role shape) (Expr.typeIn scopes.environment role ⟨id, span, shape⟩)
      scopes (ofShape scopes.environment role shape)
  | .literal value => runs_pure (Ty.ofLiteral? value)
  | .name name => by
    cases role with
    | read =>
      rw [show Expr.typeIn scopes.environment .read ⟨id, span, .name name⟩ = scopes.lookup name
        from (scopes.lookup_eq name).symm]
      exact runs_scopes fun scopes => scopes.lookup name
    | target => exact runs_pure none
  | .list elements => (resolveAll_runs scopes role elements).answer none
  | .tuple elements => (resolveAll_runs scopes role elements).answer none
  | .dict entries => (resolveEntries_runs scopes entries).answer (some Ty.dict)
  | .listComp element clauses => by
    obtain ⟨inner, he, hleave, hclauses⟩ :=
      (resolveClauses_changes (scopes.push comprehension) clauses).scoped
    have helement := resolve_runs inner .read element
    rw [he] at helement
    exact (runs_enter comprehension).bind (hclauses.bind
      (helement.bind_silent (hleave.answer none)))
  | .dictComp ⟨key, value⟩ clauses => by
    obtain ⟨inner, he, hleave, hclauses⟩ :=
      (resolveClauses_changes (scopes.push comprehension) clauses).scoped
    have hkey := resolve_runs inner .read key
    have hvalue := resolve_runs inner .read value
    rw [he] at hkey hvalue
    exact (runs_enter comprehension).bind (hclauses.bind
      (hkey.bind (hvalue.bind_silent (hleave.answer (some Ty.dict)))))
  | .call callee arguments =>
    (resolve_runs scopes .read callee).bind
      ((resolveArguments_runs scopes arguments).answer (callee.asName?.bind Ty.ofBuiltin?))
  | .binary _ left right =>
    (resolve_runs scopes .read left).bind
      ((resolve_runs scopes .read right).bind_silent (runs_pure _))
  | .unary _ operand => (resolve_runs scopes .read operand).answer none
  | .member object _ => (resolve_runs scopes .read object).answer none
  | .index object key =>
    (resolve_runs scopes .read object).bind ((resolve_runs scopes .read key).answer none)
  | .slice object lower upper step =>
    (resolve_runs scopes .read object).bind ((resolveBound_runs scopes lower).bind
      ((resolveBound_runs scopes upper).bind ((resolveBound_runs scopes step).answer none)))
  | .conditional whenTrue condition whenFalse =>
    (resolve_runs scopes .read whenTrue).bind ((resolve_runs scopes .read condition).bind
      ((resolve_runs scopes .read whenFalse).answer none))

theorem resolveAll_runs (scopes : Scopes) (role : Role) : (es : List Expr) →
    Runs scopes (resolveAll role es) () scopes (ofExprs scopes.environment role es)
  | [] => runs_pure ()
  | e :: es => (resolve_runs scopes role e).bind (resolveAll_runs scopes role es)

theorem resolveBound_runs (scopes : Scopes) : (bound : Option Expr) →
    Runs scopes (resolveBound bound) () scopes (ofBound scopes.environment bound)
  | none => runs_pure ()
  | some e => (resolve_runs scopes .read e).answer ()

theorem resolveEntries_runs (scopes : Scopes) : (entries : List (Entry Expr)) →
    Runs scopes (resolveEntries entries) () scopes (ofEntries scopes.environment entries)
  | [] => runs_pure ()
  | ⟨key, value⟩ :: entries =>
    (resolve_runs scopes .read key).bind
      ((resolve_runs scopes .read value).bind (resolveEntries_runs scopes entries))

theorem resolveArguments_runs (scopes : Scopes) : (arguments : List (Argument Expr)) →
    Runs scopes (resolveArguments arguments) () scopes (ofArguments scopes.environment arguments)
  | [] => runs_pure ()
  | .positional value :: arguments | .keyword _ _ value :: arguments
  | .unpack value :: arguments | .unpackKeywords value :: arguments =>
    (resolve_runs scopes .read value).bind (resolveArguments_runs scopes arguments)

/-- Clauses change the innermost scope, which is the one of their comprehension. -/
theorem resolveClauses_changes (scopes : Scopes) : (clauses : List (Clause Expr)) →
    Changes scopes (resolveClauses clauses) (scopes.environment.through clauses)
      (ofClauses scopes.environment clauses)
  | [] => (runs_pure ()).changes
  | .each target iterable :: clauses => by
    refine (resolve_runs scopes .read iterable).bind_changes
      ((resolve_runs scopes .target target).bind_changes
        ((declareTarget_changes scopes target).bind fun middle he => ?_))
    rw [Environment.through, ← he]
    exact resolveClauses_changes middle clauses
  | .only condition :: clauses =>
    (resolve_runs scopes .read condition).bind_changes (resolveClauses_changes scopes clauses)

end

theorem parameterTypes_runs (scopes : Scopes) : (parameters : List Parameter) →
    Runs scopes (parameterTypes parameters)
      (parameters.map fun p => (p.name, p.default.bind (Expr.typeIn scopes.environment .read)))
      scopes (ofParameters scopes.environment parameters)
  | [] => runs_pure []
  | ⟨_, _, none, _⟩ :: parameters =>
    (runs_pure none).bind ((parameterTypes_runs scopes parameters).bind_silent (runs_pure _))
  | ⟨_, _, some value, _⟩ :: parameters =>
    (resolve_runs scopes .read value).bind
      ((parameterTypes_runs scopes parameters).bind_silent (runs_pure _))

theorem bindParameter_changes (scopes : Scopes) (function name : String) (ty : Option Ty) :
    Changes scopes (bindParameter function (name, ty))
      (Function.update scopes.environment name (.ofTy? ty)) [] := by
  cases ty with
  | none => exact changes_declare name
  | some ty =>
    have hnote : Runs scopes (note (.typedParameter name function ty)) () scopes [] :=
      runs_note _ rfl (by simp)
    exact ⟨_, hnote.bind (runs_bind name ty), rfl, by simp⟩

theorem bindParameters_changes (function : String) (parameters : List (String × Option Ty))
    (scopes : Scopes) : Changes scopes (bindParameters function parameters)
      (scopes.environment.bindAll parameters) [] := by
  induction parameters generalizing scopes with
  | nil => exact (runs_pure ()).changes
  | cons p parameters ih =>
    refine (bindParameter_changes scopes function p.1 p.2).bind fun middle he => ?_
    rw [Environment.bindAll, ← he]
    exact ih middle

/-- A name takes the type of the value, and any other target is resolved. -/
theorem assign_changes (scopes : Scopes) (span : Span) (target value : Expr) :
    Changes scopes (inferStmt ⟨span, .assign target value⟩) (scopes.environment.assign target value)
      (ofExpr scopes.environment .read value ++ ofExpr scopes.environment .target target) := by
  refine (resolve_runs scopes .read value).bind_changes ?_
  have htarget := (resolve_runs scopes .target target).answer ()
  cases hn : target.asName? with
  | none => simpa [Environment.assign, hn] using htarget.changes
  | some name =>
    cases ht : value.typeIn scopes.environment .read with
    | none => simpa [Environment.assign, hn, ht] using htarget.changes
    | some ty =>
      obtain ⟨id, targetSpan, shape⟩ := target
      obtain rfl := (Expr.asName?_eq_some_iff _ _).1 hn
      have hbind : Runs scopes (Infer.bind name ty) () (scopes.bind name ty)
          [⟨⟨id, targetSpan, .name name⟩, .target, scopes.environment⟩] :=
        (runs_bind name ty).of_findings rfl
      refine ⟨scopes.bind name ty, hbind, rfl, ?_⟩
      simp [Environment.assign, hn, ht, Standing.ofTy?]

/-- A definition leaves the scopes as they were, since its body runs in a scope of its own. -/
theorem define_runs (scopes : Scopes) (span : Span) (name : String) (parameters : List Parameter)
    (body : List Stmt)
    (hbody : ∀ inner : Scopes, Changes inner (inferBlock body) (inner.environment.afterBlock body)
      (ofBlock inner.environment body)) :
    Runs scopes (inferStmt ⟨span, .define name parameters body⟩) () scopes
      (ofStmt scopes.environment ⟨span, .define name parameters body⟩) := by
  have hwithin : Changes (scopes.push name)
      (do
        bindParameters name (parameters.map fun p =>
          (p.name, p.default.bind (Expr.typeIn scopes.environment .read)))
        inferBlock body)
      ((scopes.environment.within parameters).afterBlock body)
      (ofBlock (scopes.environment.within parameters) body) := by
    refine (bindParameters_changes name _ _).bind fun middle he => ?_
    rw [Scopes.environment_push] at he
    rw [Environment.within, ← he]
    exact hbody middle
  obtain ⟨inner, he, hleave, hinner⟩ := hwithin.scoped
  have hscope := hinner.bind_silent (k := fun _ => leave) hleave
  rw [bind_assoc] at hscope
  exact (parameterTypes_runs scopes parameters).bind ((runs_enter name).bind hscope)

mutual

/-- A statement changes the innermost scope as it changes the flat environment. -/
theorem inferStmt_changes (scopes : Scopes) : (s : Stmt) →
    Changes scopes (inferStmt s) (scopes.environment.after s) (ofStmt scopes.environment s)
  | ⟨_, .expression value⟩ => ((resolve_runs scopes .read value).answer ()).changes
  | ⟨span, .assign target value⟩ => assign_changes scopes span target value
  | ⟨_, .augment _ target value⟩ =>
    ((resolve_runs scopes .read target).bind
      ((resolve_runs scopes .read value).answer ())).changes
  | ⟨span, .define name parameters body⟩ =>
    (define_runs scopes span name parameters body fun inner =>
      inferBlock_changes inner body).changes
  | ⟨_, .return_ value⟩ => (resolveBound_runs scopes value).changes
  | ⟨_, .branch condition body other⟩ => by
    refine (resolve_runs scopes .read condition).bind_changes
      ((inferBlock_changes scopes body).bind fun middle he => ?_)
    rw [Environment.after, ← he]
    exact inferBlock_changes middle other
  | ⟨_, .loop target iterable body⟩ => by
    refine (resolve_runs scopes .read iterable).bind_changes
      ((resolve_runs scopes .target target).bind_changes
        ((declareTarget_changes scopes target).bind fun middle he => ?_))
    rw [Environment.after, ← he]
    exact inferBlock_changes middle body
  | ⟨_, .pass⟩ | ⟨_, .break_⟩ | ⟨_, .continue_⟩ => (runs_pure ()).changes

theorem inferBlock_changes (scopes : Scopes) : (block : List Stmt) →
    Changes scopes (inferBlock block) (scopes.environment.afterBlock block)
      (ofBlock scopes.environment block)
  | [] => (runs_pure ()).changes
  | s :: block => by
    refine (inferStmt_changes scopes s).bind fun middle he => ?_
    rw [Environment.afterBlock, ← he]
    exact inferBlock_changes middle block

end

end Infer

end BuildTyping
