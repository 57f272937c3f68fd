import BuildTyping.Proofs.Syntax.Parallel
import BuildTyping.Proofs.Typing.Records

/-!
# What plays the same part

The part that an expression plays in the evaluation is its name, the names that it binds, its type
in an environment and its visits. A node plays the same part as another one when its parts do,
whatever its labels and its operators, and also when all names are renamed so that different names
stay different. The same holds of statements and what they do to the environment.
-/

namespace BuildTyping

/-- Each of the ids is visited on both sides, and there the same type is found for it. -/
def Visits.Agree (ids : List Nat) (visits visits' : List Visit) : Prop :=
  ∀ id ∈ ids, ∃ v ∈ visits, ∃ v' ∈ visits', v.expr.id = id ∧ v'.expr.id = id ∧ v.ty? = v'.ty?

namespace Visits

variable {ids ids' : List Nat} {first first' second second' : List Visit} {env : Environment}

theorem Agree.nil : Agree [] first first' := by simp [Agree]

theorem Agree.append (h : Agree ids first first') (h' : Agree ids' second second') :
    Agree (ids ++ ids') (first ++ second) (first' ++ second') := by
  intro id hid
  rcases List.mem_append.1 hid with hid | hid
  · obtain ⟨v, hv, v', hv', hfound⟩ := h id hid
    exact ⟨v, List.mem_append_left _ hv, v', List.mem_append_left _ hv', hfound⟩
  · obtain ⟨v, hv, v', hv', hfound⟩ := h' id hid
    exact ⟨v, List.mem_append_right _ hv, v', List.mem_append_right _ hv', hfound⟩

/-- The order in which the ids are listed is not that of the visits. -/
theorem Agree.append_comm (h : Agree ids second second') (h' : Agree ids' first first') :
    Agree (ids ++ ids') (first ++ second) (first' ++ second') := by
  intro id hid
  exact (h'.append h) id (List.mem_append.2 (List.mem_append.1 hid).symm)

/-- What is visited first on one side may be visited last on the other. -/
theorem Agree.append_swap (h : Agree ids first first') (h' : Agree ids' second second') :
    Agree (ids ++ ids') (first ++ second) (second' ++ first') := by
  intro id hid
  obtain ⟨v, hv, v', hv', hfound⟩ := h.append h' id hid
  exact ⟨v, hv, v', List.mem_append.2 (List.mem_append.1 hv').symm, hfound⟩

theorem Agree.append_any (h : Agree ids first first') :
    Agree ids (first ++ second) (first' ++ second') := by
  intro id hid
  obtain ⟨v, hv, v', hv', hfound⟩ := h id hid
  exact ⟨v, List.mem_append_left _ hv, v', List.mem_append_left _ hv', hfound⟩

theorem Agree.append_left (h : Agree ids second second') :
    Agree ids (first ++ second) second' := by
  intro id hid
  obtain ⟨v, hv, hfound⟩ := h id hid
  exact ⟨v, List.mem_append_right _ hv, hfound⟩

theorem Agree.append_right (h : Agree ids second second') :
    Agree ids second (first' ++ second') := by
  intro id hid
  obtain ⟨v, hv, v', hv', hfound⟩ := h id hid
  exact ⟨v, hv, v', List.mem_append_right _ hv', hfound⟩

/-- The parts of a shape other than a comprehension are visited in the environment of the whole. -/
def partRole (role : Role) : Shape Expr → Role
  | .list _ | .tuple _ => role
  | _ => .read

theorem ofExprs_eq (env : Environment) (role : Role) (es : List Expr) :
    ofExprs env role es = es.flatMap (ofExpr env role) := by
  induction es with
  | nil => rfl
  | cons e es ih => rw [ofExprs, ih, List.flatMap_cons]

theorem ofBound_eq (env : Environment) (bound : Option Expr) :
    ofBound env bound = bound.toList.flatMap (ofExpr env .read) := by
  cases bound <;> simp [ofBound]

theorem ofEntries_eq (env : Environment) (entries : List (Entry Expr)) :
    ofEntries env entries = (entries.flatMap Entry.parts).flatMap (ofExpr env .read) := by
  induction entries with
  | nil => rfl
  | cons entry entries ih => simp [ofEntries, ih, Entry.parts]

theorem ofArguments_eq (env : Environment) (arguments : List (Argument Expr)) :
    ofArguments env arguments = (arguments.map Argument.value).flatMap (ofExpr env .read) := by
  induction arguments with
  | nil => rfl
  | cons a arguments ih => cases a <;> simp [ofArguments, ih, Argument.value]

theorem ofParameters_eq (env : Environment) (ps : List Parameter) :
    ofParameters env ps = (ps.filterMap Parameter.default).flatMap (ofExpr env .read) := by
  induction ps with
  | nil => rfl
  | cons p ps ih => cases hd : p.default <;> simp [ofParameters, ofBound, hd, ih]

end Visits

def Shape.isComprehension {α : Type} : Shape α → Bool
  | listComp _ _ | dictComp _ _ => true
  | _ => false

theorem Visits.ofShape_eq (env : Environment) (role : Role) {shape : Shape Expr}
    (h : shape.isComprehension = false) :
    ofShape env role shape = shape.parts.flatMap (ofExpr env (partRole role shape)) := by
  cases shape with
  | list elements | tuple elements => exact ofExprs_eq env role elements
  | dict entries => exact ofEntries_eq env entries
  | listComp element clauses | dictComp entry clauses => simp [Shape.isComprehension] at h
  | call callee arguments => simp [ofShape, Shape.parts, partRole, ofArguments_eq]
  | slice object lower upper step => simp [ofShape, Shape.parts, partRole, ofBound_eq]
  | _ => simp [ofShape, Shape.parts, partRole]

/-- A change of all names that keeps different names different. The functions whose calls have a
known type keep their names. -/
structure Renaming where
  apply : String → String
  injective : Function.Injective apply
  fixes : ∀ name ∈ Ty.builtins.map Prod.fst, apply name = name

namespace Renaming

protected def refl : Renaming := ⟨id, Function.injective_id, fun _ _ => rfl⟩

@[simp] theorem apply_refl : Renaming.refl.apply = id := rfl

theorem ofBuiltin?_apply (r : Renaming) (name : String) :
    Ty.ofBuiltin? (r.apply name) = Ty.ofBuiltin? name := by
  by_cases h : name ∈ Ty.builtins.map Prod.fst
  · rw [r.fixes name h]
  · have hr : r.apply name ∉ Ty.builtins.map Prod.fst :=
      fun hmem => h (r.injective (r.fixes _ hmem) ▸ hmem)
    have unknown {name : String} (h : name ∉ Ty.builtins.map Prod.fst) :
        Ty.ofBuiltin? name = none := by
      refine List.lookup_eq_none_iff.2 fun entry hentry => ?_
      simp only [bne_iff_ne]
      exact fun he => h (List.mem_map.2 ⟨entry, hentry, he.symm⟩)
    rw [unknown h, unknown hr]

end Renaming

variable {r : Renaming} {ids ids' ids'' : List Nat}

namespace Environment

/-- How the names stand that are renamed to those of this environment. -/
def along (env : Environment) (r : Renaming) : Environment := fun name => env (r.apply name)

theorem along_update (env : Environment) (r : Renaming) (name : String) (standing : Standing) :
    along (Function.update env (r.apply name) standing) r
      = Function.update (env.along r) name standing :=
  Function.update_comp_eq_of_injective env r.injective name standing

theorem along_declareAll (env : Environment) (r : Renaming) (names : List String) :
    (env.declareAll (names.map r.apply)).along r = (env.along r).declareAll names := by
  induction names generalizing env with
  | nil => rfl
  | cons name names ih => rw [List.map_cons, declareAll, declareAll, ih, along_update]

theorem along_bindAll (env : Environment) (r : Renaming) (bs : List (String × Option Ty)) :
    (env.bindAll (bs.map fun (name, ty) => (r.apply name, ty))).along r
      = (env.along r).bindAll bs := by
  induction bs generalizing env with
  | nil => rfl
  | cons b bs ih =>
    obtain ⟨name, ty⟩ := b
    rw [List.map_cons, bindAll, bindAll, ih, along_update]

end Environment

/-- The two expressions play the same part, whatever the environment, when the names of the first
are renamed. -/
structure Expr.Same (r : Renaming) (e e' : Expr) (ids : List Nat) : Prop where
  name : e.asName?.map r.apply = e'.asName?
  bound : e.boundNames.map r.apply = e'.boundNames
  type : ∀ env role, e.typeIn (env.along r) role = e'.typeIn env role
  visits : ∀ env role, Visits.Agree ids (Visits.ofExpr (env.along r) role e)
    (Visits.ofExpr env role e')

/-- The expressions play the same parts one by one. -/
inductive Expr.AllSame (r : Renaming) : List Expr → List Expr → List Nat → Prop where
  | nil : Expr.AllSame r [] [] []
  | cons {e e' : Expr} {es es' : List Expr} {ids ids' : List Nat} (first : e.Same r e' ids)
      (rest : Expr.AllSame r es es' ids') : Expr.AllSame r (e :: es) (e' :: es') (ids ++ ids')

theorem Expr.Same.declareAll {target target' : Expr} (h : target.Same r target' ids)
    (env : Environment) : (env.declareAll target'.boundNames).along r
      = (env.along r).declareAll target.boundNames := by
  rw [← h.bound, Environment.along_declareAll]

namespace Expr.AllSame

variable {es es' : List Expr} {e e' : Expr}

theorem visits (h : AllSame r es es' ids) (env : Environment) (role : Role) :
    Visits.Agree ids (es.flatMap (Visits.ofExpr (env.along r) role))
      (es'.flatMap (Visits.ofExpr env role)) := by
  induction h with
  | nil => exact .nil
  | cons first rest ih =>
    rw [List.flatMap_cons, List.flatMap_cons]
    exact (first.visits env role).append ih

theorem bound (h : AllSame r es es' ids) :
    ((bindersIn es).filterMap asName?).map r.apply = (bindersIn es').filterMap asName? := by
  induction h with
  | nil => rfl
  | cons first rest ih =>
    rw [bindersIn, bindersIn, List.filterMap_append, List.filterMap_append, List.map_append, ih]
    exact congrArg (· ++ _) first.bound

theorem uncons (h : AllSame r (e :: es) (e' :: es') ids) :
    ∃ first rest, ids = first ++ rest ∧ e.Same r e' first ∧ AllSame r es es' rest := by
  cases h with
  | cons first rest => exact ⟨_, _, rfl, first, rest⟩

end Expr.AllSame

/-- Clauses with the same parts lead to the same environment. -/
theorem Expr.AllSame.clauses {clauses clauses' : List (Clause Expr)}
    (frame : clauses.map (Clause.map fun _ => ()) = clauses'.map (Clause.map fun _ => ()))
    (h : AllSame r (clauses.flatMap Clause.parts) (clauses'.flatMap Clause.parts) ids)
    (env : Environment) :
    (env.through clauses').along r = (env.along r).through clauses ∧
      Visits.Agree ids (Visits.ofClauses (env.along r) clauses)
        (Visits.ofClauses env clauses') := by
  induction clauses generalizing clauses' ids env with
  | nil =>
    obtain rfl : clauses' = [] := List.map_eq_nil_iff.1 frame.symm
    cases h
    exact ⟨rfl, .nil⟩
  | cons clause clauses ih =>
    cases clauses' with
    | nil => simp at frame
    | cons clause' clauses' =>
      simp only [List.map_cons, List.cons.injEq] at frame
      obtain ⟨hclause, frame⟩ := frame
      cases clause with
      | each target iterable =>
        cases clause' with
        | only condition => simp [Clause.map] at hclause
        | each target' iterable' =>
          obtain ⟨ids₁, rest₁, rfl, htarget, h⟩ := h.uncons
          obtain ⟨ids₂, rest₂, rfl, hiterable, h⟩ := h.uncons
          obtain ⟨henv, hvisits⟩ := ih frame h (env.declareAll target'.boundNames)
          rw [htarget.declareAll] at henv hvisits
          refine ⟨henv, ?_⟩
          rw [Visits.ofClauses, Visits.ofClauses, ← List.append_assoc, ← List.append_assoc,
            ← List.append_assoc]
          exact ((htarget.visits env .target).append_comm (hiterable.visits env .read)).append
            hvisits
      | only condition =>
        cases clause' with
        | each target iterable => simp [Clause.map] at hclause
        | only condition' =>
          obtain ⟨ids₁, rest₁, rfl, hcondition, h⟩ := h.uncons
          obtain ⟨henv, hvisits⟩ := ih frame h env
          exact ⟨henv, (hcondition.visits env .read).append hvisits⟩

namespace Expr.Same

variable {id : Nat} {span span' : Span} {shape shape' : Shape Expr}

/-- The node itself comes last among the visits. -/
theorem of_parts (name : (asName? ⟨id, span, shape⟩).map r.apply = asName? ⟨id, span', shape'⟩)
    (bound : (boundNames ⟨id, span, shape⟩).map r.apply = boundNames ⟨id, span', shape'⟩)
    (type : ∀ env role, typeIn (Environment.along env r) role ⟨id, span, shape⟩
      = typeIn env role ⟨id, span', shape'⟩)
    (visits : ∀ env role, Visits.Agree ids (Visits.ofShape (Environment.along env r) role shape)
      (Visits.ofShape env role shape')) :
    Same r ⟨id, span, shape⟩ ⟨id, span', shape'⟩ (id :: ids) where
  name := name
  bound := bound
  type := type
  visits env role := by
    have hself : Visits.Agree [id] [⟨⟨id, span, shape⟩, role, env.along r⟩]
        [⟨⟨id, span', shape'⟩, role, env⟩] := by
      intro i hi
      rw [List.mem_singleton.1 hi]
      exact ⟨_, List.mem_singleton_self _, _, List.mem_singleton_self _, rfl, rfl, type env role⟩
    exact hself.append_comm (visits env role)

/-- A node plays the same part when its parts do, whatever its labels and its operator. -/
theorem of_frame
    (frame : (shape.frame.rename r.apply).unlabelled.unsigned = shape'.frame.unlabelled.unsigned)
    (parts : AllSame r shape.parts shape'.parts ids) :
    Same r ⟨id, span, shape⟩ ⟨id, span', shape'⟩ (id :: ids) := by
  have plain (hs : shape.isComprehension = false) (hs' : shape'.isComprehension = false)
      (role : ∀ role, Visits.partRole role shape = Visits.partRole role shape')
      (env : Environment) (role' : Role) : Visits.Agree ids
        (Visits.ofShape (env.along r) role' shape) (Visits.ofShape env role' shape') := by
    rw [Visits.ofShape_eq _ role' hs, Visits.ofShape_eq env role' hs', role role']
    exact parts.visits env _
  -- shapes of different constructors have different frames
  cases shape <;> cases shape' <;>
    first
      | (simp only [Shape.frame, Shape.map, Shape.bare, Shape.rename, Shape.unlabelled,
          Shape.unsigned, reduceCtorEq] at frame; done)
      | skip
  case literal.literal value value' =>
    obtain rfl : value = value' := by
      simpa [Shape.frame, Shape.map, Shape.bare, Shape.rename, Shape.unlabelled, Shape.unsigned]
        using frame
    exact of_parts rfl rfl (fun _ _ => rfl) (plain rfl rfl fun _ => rfl)
  case name.name label label' =>
    obtain rfl : r.apply label = label' := by
      simpa [Shape.frame, Shape.map, Shape.bare, Shape.rename, Shape.unlabelled, Shape.unsigned]
        using frame
    exact of_parts rfl rfl (fun _ role => by cases role <;> rfl) (plain rfl rfl fun _ => rfl)
  case list.list =>
    exact of_parts rfl parts.bound (fun _ _ => rfl) (plain rfl rfl fun _ => rfl)
  case tuple.tuple =>
    exact of_parts rfl parts.bound (fun _ _ => rfl) (plain rfl rfl fun _ => rfl)
  case call.call callee arguments callee' arguments' =>
    obtain ⟨first, rest, rfl, hcallee, -⟩ := parts.uncons
    have hbuiltin : callee.asName?.bind Ty.ofBuiltin? = callee'.asName?.bind Ty.ofBuiltin? := by
      rw [← hcallee.name, Option.bind_map]
      exact congrArg _ (funext fun name => (r.ofBuiltin?_apply name).symm)
    exact of_parts rfl rfl (fun env role => by cases role <;> exact hbuiltin)
      (plain rfl rfl fun _ => rfl)
  case binary.binary =>
    obtain ⟨first, rest, rfl, hleft, h⟩ := parts.uncons
    obtain ⟨second, rest, rfl, hright, -⟩ := h.uncons
    refine of_parts rfl rfl (fun env role => ?_) (plain rfl rfl fun _ => rfl)
    cases role <;> exact congrArg₂ Ty.combine (hleft.type env .read) (hright.type env .read)
  case listComp.listComp element clauses element' clauses' =>
    obtain ⟨first, rest, rfl, helement, h⟩ := parts.uncons
    have hclauses : clauses.map (Clause.map fun _ => ()) =
        clauses'.map (Clause.map fun _ => ()) := by
      simpa [Shape.frame, Shape.map, Shape.bare, Shape.rename, Shape.unlabelled, Shape.unsigned]
        using frame
    refine of_parts rfl rfl (fun _ _ => rfl) fun env role => ?_
    obtain ⟨henv, hvisits⟩ := h.clauses hclauses env
    rw [Visits.ofShape, Visits.ofShape, ← henv]
    exact (helement.visits (env.through clauses') .read).append_comm hvisits
  case dictComp.dictComp entry clauses entry' clauses' =>
    obtain ⟨first, rest, rfl, hkey, h⟩ := parts.uncons
    obtain ⟨second, rest, rfl, hvalue, h⟩ := h.uncons
    have hclauses : clauses.map (Clause.map fun _ => ()) =
        clauses'.map (Clause.map fun _ => ()) := by
      simp only [Shape.frame, Shape.map, Shape.bare, Shape.rename, Shape.unlabelled,
        Shape.unsigned, Shape.dictComp.injEq] at frame
      exact frame.2
    refine of_parts rfl rfl (fun _ role => by cases role <;> rfl) fun env role => ?_
    obtain ⟨henv, hvisits⟩ := h.clauses hclauses env
    rw [Visits.ofShape, Visits.ofShape, ← henv, ← List.append_assoc]
    exact ((hkey.visits (env.through clauses') .read).append
      (hvalue.visits (env.through clauses') .read)).append_comm hvisits
  all_goals
    exact of_parts rfl rfl (fun _ role => by cases role <;> rfl) (plain rfl rfl fun _ => rfl)

/-- The operands of a binary operation may be swapped. -/
theorem swapped {left left' right right' : Expr} (op op' : BinaryOp)
    (first : left.Same r left' ids) (second : right.Same r right' ids') :
    Same r ⟨id, span, .binary op left right⟩ ⟨id, span', .binary op' right' left'⟩
      (id :: (ids ++ ids')) := by
  refine of_parts rfl rfl (fun env role => ?_) fun env role =>
    (first.visits env .read).append_swap (second.visits env .read)
  have htype : Ty.combine (left.typeIn (env.along r) .read) (right.typeIn (env.along r) .read)
      = Ty.combine (right'.typeIn env .read) (left'.typeIn env .read) := by
    rw [first.type, second.type, Ty.combine_comm]
  cases role <;> exact htype

end Expr.Same

/-- An expression that may be missing has the same type if both are missing or they are the same. -/
theorem Expr.AllSame.type_bind {o o' : Option Expr} (h : AllSame r o.toList o'.toList ids)
    (env : Environment) : o.bind (typeIn (env.along r) .read) = o'.bind (typeIn env .read) := by
  cases o with
  | none =>
    cases o' with
    | none => rfl
    | some e' => cases h
  | some e =>
    cases o' with
    | none => cases h
    | some e' =>
      obtain ⟨first, rest, rfl, hfirst, -⟩ := h.uncons
      exact hfirst.type env .read

/-- The parameters are bound with the same types, and their defaults play the same parts. -/
inductive Parameter.AllSame (r : Renaming) : List Parameter → List Parameter → List Nat → Prop where
  | nil : Parameter.AllSame r [] [] []
  | cons {p p' : Parameter} {ps ps' : List Parameter} {ids ids' : List Nat}
      (name : r.apply p.name = p'.name)
      (default : Expr.AllSame r p.default.toList p'.default.toList ids)
      (rest : Parameter.AllSame r ps ps' ids') :
      Parameter.AllSame r (p :: ps) (p' :: ps') (ids ++ ids')

namespace Parameter.AllSame

variable {ps ps' : List Parameter}

theorem within (h : AllSame r ps ps' ids) (env : Environment) :
    (env.within ps').along r = (env.along r).within ps := by
  have htypes : ps'.map (fun p => (p.name, p.default.bind (Expr.typeIn env .read)))
      = (ps.map fun p => (p.name, p.default.bind (Expr.typeIn (env.along r) .read))).map
        fun (name, ty) => (r.apply name, ty) := by
    induction h with
    | nil => rfl
    | cons name default rest ih =>
      rw [List.map_cons, List.map_cons, List.map_cons, ih, default.type_bind env, ← name]
  rw [Environment.within, Environment.within, htypes, Environment.along_bindAll]

theorem visits (h : AllSame r ps ps' ids) (env : Environment) :
    Visits.Agree ids (Visits.ofParameters (env.along r) ps) (Visits.ofParameters env ps') := by
  induction h with
  | nil => exact .nil
  | cons name default rest ih =>
    have hdefault := default.visits env .read
    rw [← Visits.ofBound_eq, ← Visits.ofBound_eq] at hdefault
    exact hdefault.append ih

end Parameter.AllSame

/-- The statements do the same to every environment and play the same part there, when the names of
the first are renamed. -/
def Stmt.Same (r : Renaming) (s s' : Stmt) (ids : List Nat) : Prop :=
  ∀ env : Environment, (env.after s').along r = (env.along r).after s ∧
    Visits.Agree ids (Visits.ofStmt (env.along r) s) (Visits.ofStmt env s')

/-- The same of statements one after the other. -/
def Stmt.BlockSame (r : Renaming) (ss ss' : List Stmt) (ids : List Nat) : Prop :=
  ∀ env : Environment, (env.afterBlock ss').along r = (env.along r).afterBlock ss ∧
    Visits.Agree ids (Visits.ofBlock (env.along r) ss) (Visits.ofBlock env ss')

namespace Stmt

variable {s s' : Stmt} {ss ss' os os' : List Stmt} {t t' e e' : Expr} {o o' : Option Expr}
  {span span' : Span}

theorem BlockSame.nil : BlockSame r [] [] [] := fun _ => ⟨rfl, .nil⟩

theorem BlockSame.cons (first : Same r s s' ids) (rest : BlockSame r ss ss' ids') :
    BlockSame r (s :: ss) (s' :: ss') (ids ++ ids') := by
  intro env
  obtain ⟨hafter, hvisits⟩ := first env
  obtain ⟨hrest, hvisits'⟩ := rest (env.after s')
  rw [hafter] at hrest hvisits'
  exact ⟨hrest, hvisits.append hvisits'⟩

theorem Same.expression (value : e.Same r e' ids) :
    Same r ⟨span, .expression e⟩ ⟨span', .expression e'⟩ ids :=
  fun env => ⟨rfl, value.visits env .read⟩

theorem Same.assign (target : t.Same r t' ids) (value : e.Same r e' ids') :
    Same r ⟨span, .assign t e⟩ ⟨span', .assign t' e'⟩ (ids ++ ids') := by
  intro env
  refine ⟨?_, (target.visits env .target).append_comm (value.visits env .read)⟩
  simp only [Environment.after, Environment.assign, ← target.name, value.type env .read]
  cases t.asName? <;> cases e'.typeIn env .read <;>
    simp only [Option.map_none, Option.map_some, Environment.along_update]

theorem Same.augment (op op' : BinaryOp) (target : t.Same r t' ids) (value : e.Same r e' ids') :
    Same r ⟨span, .augment op t e⟩ ⟨span', .augment op' t' e'⟩ (ids ++ ids') :=
  fun env => ⟨rfl, (target.visits env .read).append (value.visits env .read)⟩

theorem Same.return_ (value : Expr.AllSame r o.toList o'.toList ids) :
    Same r ⟨span, .return_ o⟩ ⟨span', .return_ o'⟩ ids := by
  intro env
  have hvalue := value.visits env .read
  rw [← Visits.ofBound_eq, ← Visits.ofBound_eq] at hvalue
  exact ⟨rfl, hvalue⟩

theorem Same.branch (condition : e.Same r e' ids) (body : BlockSame r ss ss' ids')
    (other : BlockSame r os os' ids'') :
    Same r ⟨span, .branch e ss os⟩ ⟨span', .branch e' ss' os'⟩ (ids ++ (ids' ++ ids'')) := by
  intro env
  obtain ⟨hbody, hvisits⟩ := body env
  obtain ⟨hother, hvisits'⟩ := other (env.afterBlock ss')
  rw [hbody] at hother hvisits'
  exact ⟨hother, (condition.visits env .read).append (hvisits.append hvisits')⟩

theorem Same.loop (target : t.Same r t' ids) (iterable : e.Same r e' ids')
    (body : BlockSame r ss ss' ids'') :
    Same r ⟨span, .loop t e ss⟩ ⟨span', .loop t' e' ss'⟩ (ids ++ (ids' ++ ids'')) := by
  intro env
  obtain ⟨hbody, hvisits⟩ := body (env.declareAll t'.boundNames)
  rw [target.declareAll] at hbody hvisits
  refine ⟨hbody, ?_⟩
  rw [Visits.ofStmt, Visits.ofStmt, ← List.append_assoc, ← List.append_assoc, ← List.append_assoc]
  exact ((target.visits env .target).append_comm (iterable.visits env .read)).append hvisits

theorem Same.define {ps ps' : List Parameter} (name name' : String)
    (parameters : Parameter.AllSame r ps ps' ids) (body : BlockSame r ss ss' ids') :
    Same r ⟨span, .define name ps ss⟩ ⟨span', .define name' ps' ss'⟩ (ids ++ ids') := by
  intro env
  obtain ⟨-, hvisits⟩ := body (env.within ps')
  rw [parameters.within] at hvisits
  exact ⟨rfl, (parameters.visits env).append hvisits⟩

end Stmt

end BuildTyping
