import BuildTyping.Syntax.Expr
import Std.Data.TreeMap.Basic

/-!
# Types

The types that can be inferred. A type that is not known is `none` wherever a type is optional.
-/

namespace BuildTyping

inductive Ty where
  | string | int | dict | depset
  deriving DecidableEq, Repr

/-- The types recorded for expressions, by their ids. -/
abbrev TypeMap := Std.TreeMap Nat Ty

namespace Ty

def all : List Ty := [string, int, dict, depset]

def name : Ty → String
  | string => "string"
  | int => "int"
  | dict => "dict"
  | depset => "depset"

def ofName? (s : String) : Option Ty := all.find? fun ty => ty.name == s

/-- Floats, booleans and `None` have no inferable type. -/
def ofLiteral? : Literal → Option Ty
  | .string _ => some string
  | .int _ => some int
  | .float _ | .bool _ | .none => none

/-- The functions whose calls have a known type, whatever their arguments. -/
def builtins : List (String × Ty) :=
  [("depset", depset), ("dict", dict), ("int", int), ("str", string)]

def ofBuiltin? (name : String) : Option Ty := builtins.lookup name

/-- One known operand decides the type. Two known operands leave it unknown, even when they
agree. -/
def combine : Option Ty → Option Ty → Option Ty
  | some ty, none | none, some ty => some ty
  | _, _ => none

theorem mem_all (ty : Ty) : ty ∈ all := by cases ty <;> decide

theorem combine_comm (a b : Option Ty) : combine a b = combine b a := by
  cases a <;> cases b <;> rfl

end Ty

end BuildTyping
