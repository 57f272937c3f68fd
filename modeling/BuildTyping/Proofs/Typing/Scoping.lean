import BuildTyping.Proofs.Typing.Flat
import Std.Data.TreeMap.Lemmas
import Std.Data.TreeSet.Lemmas

/-!
# Scopes as a flat environment

Nested scopes stand for one flat environment: the innermost scope that knows a name says how it
stands. Every operation on scopes is an update of that environment, or leaves it as it is.
-/

namespace BuildTyping

namespace Scope

theorem compare_eq (name other : String) :
    (compare name other == .eq) = decide (other = name) := by
  by_cases h : other = name
  · simp [h]
  · have hne : ¬ name = other := fun he => h he.symm
    simp [h, hne, beq_eq_false_iff_ne]

@[simp] theorem declares_empty (function : Option String) (name : String) :
    (empty function).declares name = false := by
  simp [empty, declares]

theorem declares_bind (scope : Scope) (name other : String) (ty : Ty) :
    (scope.bind name ty).declares other = (decide (other = name) || scope.declares other) := by
  simp only [bind, declares, setType, dropDeclared, Std.TreeMap.contains_insert,
    Std.TreeSet.contains_erase, bne, compare_eq]
  by_cases h : other = name <;> simp [h]

theorem declares_declare (scope : Scope) (name other : String) :
    (scope.declare name).declares other = (decide (other = name) || scope.declares other) := by
  simp only [declare, declares, setDeclared, dropType, Std.TreeMap.contains_erase,
    Std.TreeSet.contains_insert, bne, compare_eq]
  by_cases h : other = name <;> simp [h]

theorem get?_bind (scope : Scope) (name other : String) (ty : Ty) :
    (scope.bind name ty).get? other = if other = name then some ty else scope.get? other := by
  simp [bind, get?, setType, dropDeclared, Std.TreeMap.getElem?_insert,
    show name = other ↔ other = name from eq_comm]

theorem get?_declare (scope : Scope) (name other : String) :
    (scope.declare name).get? other = if other = name then none else scope.get? other := by
  simp [declare, get?, setDeclared, dropType, Std.TreeMap.getElem?_erase,
    show name = other ↔ other = name from eq_comm]

end Scope

namespace Scopes

/-- How each name stands in the innermost scope that knows it. -/
def environment (scopes : Scopes) : Environment := fun name =>
  match scopes.toList.find? fun scope => scope.declares name with
  | some scope => .ofTy? (scope.get? name)
  | none => .unbound

theorem lookup_eq (scopes : Scopes) (name : String) :
    scopes.lookup name = (scopes.environment name).ty? := by
  simp only [lookup, environment]
  cases scopes.toList.find? fun scope => scope.declares name with
  | none => rfl
  | some scope => exact (Standing.ty?_ofTy? _).symm

@[simp] theorem environment_start : start.environment = .empty := by
  funext name
  simp [environment, start, toList, Environment.empty]

@[simp] theorem environment_push (scopes : Scopes) (function : String) :
    (scopes.push function).environment = scopes.environment := by
  funext name
  simp [environment, push, toList]

@[simp] theorem environment_bind (scopes : Scopes) (name : String) (ty : Ty) :
    (scopes.bind name ty).environment
      = Function.update scopes.environment name (.ofTy? (some ty)) := by
  funext other
  by_cases h : other = name
  · simp [environment, bind, toList, Scope.declares_bind, Scope.get?_bind, h]
  · cases hd : scopes.innermost.declares other <;>
      simp [environment, bind, toList, Scope.declares_bind, Scope.get?_bind, h, hd]

@[simp] theorem environment_declare (scopes : Scopes) (name : String) :
    (scopes.declare name).environment = Function.update scopes.environment name .declared := by
  funext other
  by_cases h : other = name
  · simp [environment, declare, toList, Scope.declares_declare, Scope.get?_declare, h,
      Standing.ofTy?]
  · cases hd : scopes.innermost.declares other <;>
      simp [environment, declare, toList, Scope.declares_declare, Scope.get?_declare, h, hd]

end Scopes

end BuildTyping
