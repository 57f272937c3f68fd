import BuildTyping.Syntax.Stmt
import BuildTyping.Typing.Event
import BuildTyping.Typing.Scope

/-!
# Inference of types

One pass over a program from top to bottom. A name has a type only from the point on where it is
bound, so a function never sees what is bound after its definition.
-/

namespace BuildTyping

structure Inference where
  types : TypeMap
  scopes : Scopes
  /-- The latest event first. -/
  events : List Event

abbrev Infer (α : Type) := StateM Inference α

/-- A name that is read has its type looked up. A name in a target is only bound. -/
inductive Role where
  | read | target
  deriving DecidableEq, Repr

namespace Inference

def start : Inference := ⟨∅, .start, []⟩

end Inference

namespace Infer

def note (event : Event) : Infer Unit :=
  modify fun s => { s with events := event :: s.events }

/-- An expression that already has a type keeps it. -/
def record (id : Nat) (ty : Ty) : Infer Unit := do
  note (.recorded id ty)
  modify fun s => { s with types := s.types.insertIfNew id ty }

def bind (name : String) (ty : Ty) : Infer Unit :=
  modify fun s => { s with scopes := s.scopes.bind name ty }

def declare (name : String) : Infer Unit :=
  modify fun s => { s with scopes := s.scopes.declare name }

def enter (function : String) : Infer Unit := do
  note (.entered function (← get).scopes.depth)
  modify fun s => { s with scopes := s.scopes.push function }

def leave : Infer Unit := do
  match (← get).scopes.pop? with
  | some (scope, outer) =>
    note (.left scope.function scope.typed.size)
    modify fun s => { s with scopes := outer }
  | none => note .refusedToLeave

/-- What the scope of a comprehension is called. -/
def comprehension : String := "<comprehension>"

mutual

/-- Declares the names in the target of a loop, so that they hide the names bound before. -/
def declareTarget : Expr → Infer Unit
  | ⟨_, _, .name name⟩ => declare name
  | ⟨_, _, .tuple elements⟩ | ⟨_, _, .list elements⟩ => declareTargets elements
  | _ => return

def declareTargets : List Expr → Infer Unit
  | [] => return
  | e :: es => do
    declareTarget e
    declareTargets es

end

mutual

/-- The type of an expression, if it is known. Every part is resolved, whatever comes of the
whole. -/
def resolve (role : Role) : Expr → Infer (Option Ty)
  | ⟨id, _, shape⟩ => do
    let ty ← resolveShape role shape
    if let some ty := ty then
      record id ty
    return ty

def resolveShape (role : Role) : Shape Expr → Infer (Option Ty)
  | .literal value => return Ty.ofLiteral? value
  | .name name => do
    match role with
    | .read => return (← get).scopes.lookup name
    | .target => return none
  | .list elements => do
    resolveAll role elements
    return none
  | .tuple elements => do
    resolveAll role elements
    return none
  | .dict entries => do
    resolveEntries entries
    return some .dict
  | .listComp element clauses => do
    enter comprehension
    resolveClauses clauses
    let _ ← resolve .read element
    leave
    return none
  | .dictComp ⟨key, value⟩ clauses => do
    enter comprehension
    resolveClauses clauses
    let _ ← resolve .read key
    let _ ← resolve .read value
    leave
    return some .dict
  | .call callee arguments => do
    let _ ← resolve .read callee
    resolveArguments arguments
    return callee.asName?.bind Ty.ofBuiltin?
  | .binary _ left right => do
    let l ← resolve .read left
    let r ← resolve .read right
    return Ty.combine l r
  | .unary _ operand => do
    let _ ← resolve .read operand
    return none
  | .member object _ => do
    let _ ← resolve .read object
    return none
  | .index object key => do
    let _ ← resolve .read object
    let _ ← resolve .read key
    return none
  | .slice object lower upper step => do
    let _ ← resolve .read object
    resolveBound lower
    resolveBound upper
    resolveBound step
    return none
  | .conditional whenTrue condition whenFalse => do
    let _ ← resolve .read whenTrue
    let _ ← resolve .read condition
    let _ ← resolve .read whenFalse
    return none

def resolveAll (role : Role) : List Expr → Infer Unit
  | [] => return
  | e :: es => do
    let _ ← resolve role e
    resolveAll role es

def resolveBound : Option Expr → Infer Unit
  | none => return
  | some e => do
    let _ ← resolve .read e

def resolveEntries : List (Entry Expr) → Infer Unit
  | [] => return
  | ⟨key, value⟩ :: entries => do
    let _ ← resolve .read key
    let _ ← resolve .read value
    resolveEntries entries

/-- The names of keyword arguments are labels and not resolved. -/
def resolveArguments : List (Argument Expr) → Infer Unit
  | [] => return
  | .positional value :: arguments => do
    let _ ← resolve .read value
    resolveArguments arguments
  | .keyword _ _ value :: arguments => do
    let _ ← resolve .read value
    resolveArguments arguments
  | .unpack value :: arguments => do
    let _ ← resolve .read value
    resolveArguments arguments
  | .unpackKeywords value :: arguments => do
    let _ ← resolve .read value
    resolveArguments arguments

/-- What a clause loops over is resolved before its targets are declared. -/
def resolveClauses : List (Clause Expr) → Infer Unit
  | [] => return
  | .each target iterable :: clauses => do
    let _ ← resolve .read iterable
    let _ ← resolve .target target
    declareTarget target
    resolveClauses clauses
  | .only condition :: clauses => do
    let _ ← resolve .read condition
    resolveClauses clauses

end

/-- The types of the defaults, which belong to the scope around the function. -/
def parameterTypes : List Parameter → Infer (List (String × Option Ty))
  | [] => return []
  | p :: ps => do
    let ty ← match p.default with
      | some value => resolve .read value
      | none => pure none
    return (p.name, ty) :: (← parameterTypes ps)

def bindParameter (function : String) : String × Option Ty → Infer Unit
  | (name, some ty) => do
    note (.typedParameter name function ty)
    bind name ty
  | (name, none) => declare name

def bindParameters (function : String) : List (String × Option Ty) → Infer Unit
  | [] => return
  | p :: ps => do
    bindParameter function p
    bindParameters function ps

mutual

def inferStmt : Stmt → Infer Unit
  | ⟨_, .expression value⟩ => do
    let _ ← resolve .read value
  | ⟨_, .assign target value⟩ => do
    let ty ← resolve .read value
    match target.asName?, ty with
    | some name, some ty => bind name ty
    | _, _ =>
      let _ ← resolve .target target
  | ⟨_, .augment _ target value⟩ => do
    let _ ← resolve .read target
    let _ ← resolve .read value
  | ⟨_, .define name parameters body⟩ => do
    let types ← parameterTypes parameters
    enter name
    bindParameters name types
    inferBlock body
    leave
  | ⟨_, .return_ value⟩ => resolveBound value
  | ⟨_, .branch condition body other⟩ => do
    let _ ← resolve .read condition
    inferBlock body
    inferBlock other
  | ⟨_, .loop target iterable body⟩ => do
    let _ ← resolve .read iterable
    let _ ← resolve .target target
    declareTarget target
    inferBlock body
  | ⟨_, .pass⟩ | ⟨_, .break_⟩ | ⟨_, .continue_⟩ => return

def inferBlock : List Stmt → Infer Unit
  | [] => return
  | s :: ss => do
    inferStmt s
    inferBlock ss

end

end Infer

namespace Program

/-- The state after the whole program. -/
def inference (p : Program) : Inference := (Infer.inferBlock p.body .start).2

/-- The types of the expressions of a program. -/
def types (p : Program) : TypeMap := p.inference.types

/-- All that happens while the types of a program are inferred, in order. -/
def events (p : Program) : List Event :=
  p.inference.events.reverse ++ [.finished p.types.size p.file]

end Program

end BuildTyping
