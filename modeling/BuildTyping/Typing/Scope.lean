import BuildTyping.Typing.Ty
import Std.Data.TreeSet.Basic

/-!
# Scopes

A scope holds the names bound in a program, in a body of a function or in a comprehension. A name
of unknown type is declared, and hides the outer names like a typed one.
-/

namespace BuildTyping

structure Scope where
  typed : Std.TreeMap String Ty
  declared : Std.TreeSet String
  /-- The function whose body this is. -/
  function : Option String

namespace Scope

def empty (function : Option String) : Scope := ⟨∅, ∅, function⟩

def get? (scope : Scope) (name : String) : Option Ty := scope.typed[name]?

def declares (scope : Scope) (name : String) : Bool :=
  scope.typed.contains name || scope.declared.contains name

def isDeclared (scope : Scope) (name : String) : Bool := scope.declared.contains name

def setType (scope : Scope) (name : String) (ty : Ty) : Scope :=
  { scope with typed := scope.typed.insert name ty }

def dropType (scope : Scope) (name : String) : Scope :=
  { scope with typed := scope.typed.erase name }

def setDeclared (scope : Scope) (name : String) : Scope :=
  { scope with declared := scope.declared.insert name }

def dropDeclared (scope : Scope) (name : String) : Scope :=
  { scope with declared := scope.declared.erase name }

/-- Gives a name a type, in place of what it was here before. -/
def bind (scope : Scope) (name : String) (ty : Ty) : Scope :=
  (scope.dropDeclared name).setType name ty

/-- Declares a name of unknown type, in place of what it was here before. -/
def declare (scope : Scope) (name : String) : Scope :=
  (scope.dropType name).setDeclared name

end Scope

/-- Scopes within each other. The outermost is that of the program and is never left. -/
structure Scopes where
  innermost : Scope
  /-- The scopes around the innermost one, the nearest first. -/
  outer : List Scope

namespace Scopes

def start : Scopes := ⟨.empty none, []⟩

def toList (scopes : Scopes) : List Scope := scopes.innermost :: scopes.outer

def depth (scopes : Scopes) : Nat := scopes.toList.length

def push (scopes : Scopes) (function : String) : Scopes :=
  ⟨.empty (some function), scopes.toList⟩

/-- The innermost scope and the scopes around it, if there are any. -/
def pop? (scopes : Scopes) : Option (Scope × Scopes) :=
  match scopes.outer with
  | [] => none
  | scope :: outer => some (scopes.innermost, ⟨scope, outer⟩)

/-- The type of a name in the innermost scope that binds or declares it. -/
def lookup (scopes : Scopes) (name : String) : Option Ty :=
  (scopes.toList.find? fun scope => scope.declares name).bind fun scope => scope.get? name

def bind (scopes : Scopes) (name : String) (ty : Ty) : Scopes :=
  { scopes with innermost := scopes.innermost.bind name ty }

def declare (scopes : Scopes) (name : String) : Scopes :=
  { scopes with innermost := scopes.innermost.declare name }

@[simp] theorem depth_start : start.depth = 1 := rfl
@[simp] theorem depth_push (scopes : Scopes) (function : String) :
    (scopes.push function).depth = scopes.depth + 1 := rfl
@[simp] theorem depth_bind (scopes : Scopes) (name : String) (ty : Ty) :
    (scopes.bind name ty).depth = scopes.depth := rfl
@[simp] theorem depth_declare (scopes : Scopes) (name : String) :
    (scopes.declare name).depth = scopes.depth := rfl
@[simp] theorem pop?_push (scopes : Scopes) (function : String) :
    (scopes.push function).pop? = some (.empty (some function), scopes) := rfl

theorem pop?_eq_none_iff (scopes : Scopes) : scopes.pop? = none ↔ scopes.depth = 1 := by
  obtain ⟨innermost, outer⟩ := scopes
  cases outer <;> simp [pop?, depth, toList]

end Scopes

end BuildTyping
