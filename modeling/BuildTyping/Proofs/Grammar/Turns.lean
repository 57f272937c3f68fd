import BuildTyping.Grammar.Statement

/-!
# The turns of the loops

What is read between two looks at whether a list goes on.
-/

namespace BuildTyping.Parse

variable {α : Type}

/-- A turn of the loop over expressions between commas. -/
def commaTurn (g : Grammar) (sub : Precedence → Parse Expr) (p : Precedence) :
    Parse (Option Expr) := do
  if (← kind) = .sign .comma then
    let _ ← advance
    if ← atStart g then some <$> sub p else return none
  else return none

/-- A turn of the loop over the clauses of a comprehension. -/
def clauseTurn (g : Grammar) (sub : Precedence → Parse Expr) : Parse (Option (Clause Expr)) := do
  match ← kind with
  | .keyword .for_ =>
    let _ ← advance
    let target ← targetList g sub
    let _ ← expect (.keyword .in_)
    return some (.each target (← sub .conditional))
  | .keyword .if_ =>
    let _ ← advance
    return some (.only (← sub .conditional))
  | _ => return none

/-- A turn of the loop over the items between brackets. -/
def itemTurn (bracket : Bracket) (item : Parse α) : Parse (Option α) := do
  if (← kind) = .sign .comma then
    let _ ← advance
    if (← kind) = .closing bracket then return none else some <$> item
  else return none

/-- A turn of the loop over the arguments of a call. -/
def argumentTurn (sub : Precedence → Parse Expr) : Parse (Option (Argument Expr)) := do
  if (← kind) = .closing .round then return none
  else
    let a ← argument sub
    separator "expected `,` or `)` in argument list"
    return some a

/-- A turn of the loop over the parameters of a function. -/
def parameterTurn (expr : Precedence → Parse Expr) : Parse (Option (Option Parameter)) := do
  if (← kind) = .closing .round then return none else some <$> parameter expr

end BuildTyping.Parse
