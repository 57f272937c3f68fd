import BuildTyping.Syntax.Stmt
import BuildTyping.Typing.Ty

/-!
# Expressions with a type
-/

namespace BuildTyping

structure Mark where
  expr : Expr
  ty : Ty

/-- The expressions of the program that have a type, in the order of its nodes. -/
def Program.marks (p : Program) (types : TypeMap) : List Mark :=
  p.nodes.filterMap fun e => types[e.id]?.map fun ty => ⟨e, ty⟩

end BuildTyping
