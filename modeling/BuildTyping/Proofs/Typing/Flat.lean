import BuildTyping.Proofs.Syntax.Targets
import BuildTyping.Typing.Inference
import Mathlib.Logic.Function.Basic

/-!
# Typing in a flat environment

A second account of inference that has no scopes. An environment says how every name stands, and
is never changed in place: a statement hands a new one on to the next, and the environment within
a function or a comprehension is dropped where that ends.
-/

namespace BuildTyping

/-- How a name stands at a point of a program. -/
inductive Standing where
  | unbound
  | declared
  | typed (ty : Ty)
  deriving DecidableEq, Repr

namespace Standing

def ty? : Standing → Option Ty
  | typed ty => some ty
  | unbound | declared => none

/-- How a bound name stands whose type may be known. -/
def ofTy? : Option Ty → Standing
  | some ty => typed ty
  | none => declared

@[simp] theorem ty?_ofTy? (ty : Option Ty) : (ofTy? ty).ty? = ty := by cases ty <;> rfl

end Standing

abbrev Environment := String → Standing

namespace Environment

def empty : Environment := fun _ => .unbound

def declareAll (env : Environment) : List String → Environment
  | [] => env
  | name :: names => declareAll (Function.update env name .declared) names

theorem declareAll_append (env : Environment) (names others : List String) :
    env.declareAll (names ++ others) = (env.declareAll names).declareAll others := by
  induction names generalizing env with
  | nil => rfl
  | cons name names ih => exact ih _

/-- Each parameter in order, typed where its default is. -/
def bindAll (env : Environment) : List (String × Option Ty) → Environment
  | [] => env
  | (name, ty) :: parameters => bindAll (Function.update env name (.ofTy? ty)) parameters

end Environment

namespace Expr

/-- The type of an expression in an environment, if it is known. A name in a target is not read. -/
def typeIn (env : Environment) : Role → Expr → Option Ty
  | _, ⟨_, _, .literal value⟩ => Ty.ofLiteral? value
  | .read, ⟨_, _, .name name⟩ => (env name).ty?
  | _, ⟨_, _, .dict _⟩ | _, ⟨_, _, .dictComp _ _⟩ => some .dict
  | _, ⟨_, _, .call callee _⟩ => callee.asName?.bind Ty.ofBuiltin?
  | _, ⟨_, _, .binary _ left right⟩ => Ty.combine (typeIn env .read left) (typeIn env .read right)
  | _, _ => none

end Expr

/-- The environment after the clauses of a comprehension. -/
def Environment.through (env : Environment) : List (Clause Expr) → Environment
  | [] => env
  | .each target _ :: clauses => (env.declareAll target.boundNames).through clauses
  | .only _ :: clauses => env.through clauses

/-- An expression at its point of the evaluation. -/
structure Visit where
  expr : Expr
  role : Role
  env : Environment

namespace Visit

def ty? (v : Visit) : Option Ty := v.expr.typeIn v.env v.role

/-- What is recorded at this point, if anything. -/
def finding? (v : Visit) : Option (Nat × Ty) := v.ty?.map fun ty => (v.expr.id, ty)

/-- The first type found for an id stays. -/
def record (types : TypeMap) (v : Visit) : TypeMap :=
  match v.ty? with
  | some ty => types.insertIfNew v.expr.id ty
  | none => types

theorem foldl_record (visits : List Visit) (types : TypeMap) :
    visits.foldl record types
      = (visits.filterMap finding?).foldl
        (fun types (id, ty) => types.insertIfNew id ty) types := by
  induction visits generalizing types with
  | nil => rfl
  | cons v visits ih => cases h : v.ty? <;> simp [record, finding?, h, ih]

end Visit

namespace Visits

mutual

/-- All points of the evaluation of an expression, the expression itself last. -/
def ofExpr (env : Environment) (role : Role) : Expr → List Visit
  | ⟨id, span, shape⟩ => ofShape env role shape ++ [⟨⟨id, span, shape⟩, role, env⟩]

def ofShape (env : Environment) (role : Role) : Shape Expr → List Visit
  | .literal _ | .name _ => []
  | .list elements | .tuple elements => ofExprs env role elements
  | .dict entries => ofEntries env entries
  | .listComp element clauses =>
    ofClauses env clauses ++ ofExpr (env.through clauses) .read element
  | .dictComp ⟨key, value⟩ clauses =>
    ofClauses env clauses ++ (ofExpr (env.through clauses) .read key
      ++ ofExpr (env.through clauses) .read value)
  | .call callee arguments => ofExpr env .read callee ++ ofArguments env arguments
  | .binary _ left right => ofExpr env .read left ++ ofExpr env .read right
  | .unary _ operand => ofExpr env .read operand
  | .member object _ => ofExpr env .read object
  | .index object key => ofExpr env .read object ++ ofExpr env .read key
  | .slice object lower upper step =>
    ofExpr env .read object ++ (ofBound env lower ++ (ofBound env upper ++ ofBound env step))
  | .conditional whenTrue condition whenFalse =>
    ofExpr env .read whenTrue ++ (ofExpr env .read condition ++ ofExpr env .read whenFalse)

def ofExprs (env : Environment) (role : Role) : List Expr → List Visit
  | [] => []
  | e :: es => ofExpr env role e ++ ofExprs env role es

def ofBound (env : Environment) : Option Expr → List Visit
  | none => []
  | some e => ofExpr env .read e

def ofEntries (env : Environment) : List (Entry Expr) → List Visit
  | [] => []
  | ⟨key, value⟩ :: entries =>
    ofExpr env .read key ++ (ofExpr env .read value ++ ofEntries env entries)

def ofArguments (env : Environment) : List (Argument Expr) → List Visit
  | [] => []
  | .positional value :: arguments => ofExpr env .read value ++ ofArguments env arguments
  | .keyword _ _ value :: arguments => ofExpr env .read value ++ ofArguments env arguments
  | .unpack value :: arguments => ofExpr env .read value ++ ofArguments env arguments
  | .unpackKeywords value :: arguments => ofExpr env .read value ++ ofArguments env arguments

/-- What a clause loops over is evaluated before its own targets are declared. -/
def ofClauses (env : Environment) : List (Clause Expr) → List Visit
  | [] => []
  | .each target iterable :: clauses =>
    ofExpr env .read iterable ++ (ofExpr env .target target
      ++ ofClauses (env.declareAll target.boundNames) clauses)
  | .only condition :: clauses => ofExpr env .read condition ++ ofClauses env clauses

end

/-- The defaults, all in the environment of the definition. -/
def ofParameters (env : Environment) : List Parameter → List Visit
  | [] => []
  | p :: ps => ofBound env p.default ++ ofParameters env ps

end Visits

namespace Environment

/-- The environment in the body of a function defined in this one. -/
def within (env : Environment) (parameters : List Parameter) : Environment :=
  env.bindAll (parameters.map fun p => (p.name, p.default.bind (Expr.typeIn env .read)))

/-- The environment after `target = value`. A name takes the type of the value if that is known. -/
def assign (env : Environment) (target value : Expr) : Environment :=
  match target.asName?, value.typeIn env .read with
  | some name, some ty => Function.update env name (.typed ty)
  | _, _ => env

mutual

/-- The environment after a statement. -/
def after (env : Environment) : Stmt → Environment
  | ⟨_, .assign target value⟩ => env.assign target value
  | ⟨_, .branch _ body other⟩ => (env.afterBlock body).afterBlock other
  | ⟨_, .loop target _ body⟩ => (env.declareAll target.boundNames).afterBlock body
  | _ => env

def afterBlock (env : Environment) : List Stmt → Environment
  | [] => env
  | s :: ss => (env.after s).afterBlock ss

end

end Environment

namespace Visits

mutual

/-- All points of the evaluation of a statement and of those within it. -/
def ofStmt (env : Environment) : Stmt → List Visit
  | ⟨_, .expression value⟩ => ofExpr env .read value
  | ⟨_, .assign target value⟩ => ofExpr env .read value ++ ofExpr env .target target
  | ⟨_, .augment _ target value⟩ => ofExpr env .read target ++ ofExpr env .read value
  | ⟨_, .define _ parameters body⟩ =>
    ofParameters env parameters ++ ofBlock (env.within parameters) body
  | ⟨_, .return_ value⟩ => ofBound env value
  | ⟨_, .branch condition body other⟩ =>
    ofExpr env .read condition ++ (ofBlock env body ++ ofBlock (env.afterBlock body) other)
  | ⟨_, .loop target iterable body⟩ =>
    ofExpr env .read iterable ++ (ofExpr env .target target
      ++ ofBlock (env.declareAll target.boundNames) body)
  | ⟨_, .pass⟩ | ⟨_, .break_⟩ | ⟨_, .continue_⟩ => []

def ofBlock (env : Environment) : List Stmt → List Visit
  | [] => []
  | s :: ss => ofStmt env s ++ ofBlock (env.after s) ss

end

end Visits

namespace Program

/-- All points of the evaluation of a program in a flat environment, in order. -/
def visits (p : Program) : List Visit := Visits.ofBlock .empty p.body

/-- The types of the expressions of a program by the flat account. -/
def flatTypes (p : Program) : TypeMap := p.visits.foldl Visit.record ∅

end Program

end BuildTyping
