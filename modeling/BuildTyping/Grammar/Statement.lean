import BuildTyping.Grammar.Expression
import BuildTyping.Syntax.Stmt

/-!
# Reading statements

A statement is simple, and ends with its line or at a semicolon, or it has a body: a block of its
own, or simple statements on the line of its colon.
-/

namespace BuildTyping

mutual

/-- The first part of a target that can not be assigned to. Names, attributes, indexes and slices
can be, and tuples and lists of targets. -/
def unassignable? : Expr → Option Expr
  | ⟨_, _, .name _⟩ | ⟨_, _, .member _ _⟩ | ⟨_, _, .index _ _⟩ | ⟨_, _, .slice _ _ _ _⟩ => none
  | ⟨_, _, .tuple elements⟩ | ⟨_, _, .list elements⟩ => unassignableIn? elements
  | e => some e

def unassignableIn? : List Expr → Option Expr
  | [] => none
  | e :: es => (unassignable? e).or (unassignableIn? es)

end

/-- Whether an augmented assignment can have this target. -/
def isAugmentable (e : Expr) : Bool :=
  match e.shape with
  | .name _ | .member _ _ | .index _ _ => true
  | _ => false

namespace Parse

variable (g : Grammar) (expr : Precedence → Parse Expr) (stmt : Parse Stmt)

def checkTarget (target : Expr) : Parse Unit :=
  match unassignable? target with
  | some e => throw ⟨.unassignableTarget, e.span.start⟩
  | none => return

/-- Reads the end of a simple statement: a newline, or a semicolon and a newline if one follows.
The ends of the block and of the source end it too and are left. -/
def statementEnd : Parse Unit := do
  match ← kind with
  | .sign .semicolon =>
    let _ ← advance
    if (← kind) = .newline then
      let _ ← advance
  | .newline =>
    let _ ← advance
  | .endOfSource | .dedent => return
  | _ => unmet "expected end of statement"

/-- What follows the first expression of a simple statement. -/
def simpleForm (first : Expr) : Parse (Form Stmt) := do
  match ← kind with
  | .sign s =>
    if s = .assign then
      let _ ← advance
      checkTarget first
      return .assign first (← exprList g expr)
    else if s.isAugmented then
      let t ← advance
      match BinaryOp.ofKind? t.kind with
      | some op =>
        if isAugmentable first then return .augment op first (← exprList g expr)
        else throw ⟨.unassignableTarget, first.span.start⟩
      | none => unexpected t
    else return .expression first
  | _ => return .expression first

/-- An expression or an assignment. -/
def simple : Parse Stmt := do
  let start := (← get).current.span.start
  let form ← simpleForm g expr (← exprList g expr)
  let span ← spanFrom start
  statementEnd
  return ⟨span, form⟩

/-- Whether a block or an inline body may go on. -/
def inBody : Parse Bool := do
  let k ← kind
  return k ≠ .dedent && k ≠ .endOfSource

/-- The statements after a colon. -/
def body : Parse (List Stmt) := do
  let _ ← expectFor (.sign .colon) "expected `:`"
  if (← kind) = .newline then
    let _ ← advance
    let _ ← expectFor .indent "expected an indented block"
    let statements ← many do
      if ← inBody then some <$> stmt else return none
    let _ ← expect .dedent
    return statements
  else
    let first ← stmt
    let others ← many do
      let afterSemicolon := (← get).previous?.any fun t => t.kind = .sign .semicolon
      if afterSemicolon && (← inBody) then some <$> stmt else return none
    return first :: others

/-- The default of a parameter, if it has one. -/
def default? : Parse (Option Expr) := do
  if (← kind) = .sign .assign then
    let _ ← advance
    some <$> expr .lowest
  else return none

/-- The stars before the name of a parameter. -/
def parameterKind : Parse ParameterKind := do
  match ← kind with
  | .sign .star =>
    let _ ← advance
    return .varArgs
  | .sign .starStar =>
    let _ ← advance
    return .kwArgs
  | _ => return .normal

/-- A parameter, or nothing for a star that only separates others. -/
def parameter : Parse (Option Parameter) := do
  let start := (← get).current.span.start
  let paramKind ← parameterKind
  if paramKind = .varArgs ∧ (← kind) ≠ .identifier then
    if (← kind) = .sign .comma then
      let _ ← advance
    return none
  else
    let name ← expectFor .identifier "expected parameter name"
    let value ← if paramKind = .normal then default? expr else pure none
    let span ← spanFrom start
    separator "expected `,` or `)` in parameter list"
    return some ⟨name.value, paramKind, value, span⟩

def define : Parse Stmt := do
  let start := (← advance).span.start
  let name ← expectFor .identifier "expected function name after `def`"
  let _ ← expect (.opening .round)
  let parameters ← many do
    if (← kind) = .closing .round then return none else some <$> parameter expr
  let _ ← expect (.closing .round)
  let statements ← body stmt
  return ⟨← spanFrom start, .define name.value (parameters.filterMap id) statements⟩

def return_ : Parse Stmt := do
  let start := (← advance).span.start
  let value ← match ← kind with
    | .newline | .sign .semicolon | .endOfSource | .dedent => pure none
    | _ => some <$> exprList g expr
  let span ← spanFrom start
  statementEnd
  return ⟨span, .return_ value⟩

/-- A branch, begun by `if` or `elif`. Another branch after it is read by `elif`. -/
def branch (elif : Parse Stmt) : Parse Stmt := do
  let start := (← advance).span.start
  let condition ← expr .lowest
  let statements ← body stmt
  let other ← match ← kind with
    | .keyword .elif => do
      pure [← elif]
    | .keyword .else_ => do
      let _ ← advance
      body stmt
    | _ => pure []
  return ⟨← spanFrom start, .branch condition statements other⟩

def loop : Parse Stmt := do
  let start := (← advance).span.start
  let target ← targetList g expr
  checkTarget target
  let _ ← expectFor (.keyword .in_) "expected `in` in for loop"
  let iterable ← exprList g expr
  let statements ← body stmt
  return ⟨← spanFrom start, .loop target iterable statements⟩

/-- A statement of one word. -/
def word : Parse Stmt := do
  let t ← advance
  let finish (form : Form Stmt) : Parse Stmt := do
    statementEnd
    return ⟨t.span, form⟩
  match t.kind with
  | .keyword .pass => finish .pass
  | .keyword .break_ => finish .break_
  | .keyword .continue_ => finish .continue_
  | _ => unexpected t

/-- A statement by a rule of the grammar, or a simple one. -/
def statementOf (elif : Parse Stmt) : Option StatementRule → Parse Stmt
  | none => simple g expr
  | some .define => define expr stmt
  | some .return_ => return_ g expr
  | some .branch => branch expr stmt elif
  | some .loop => loop g expr stmt
  | some .word => word

end Parse

/-- Reads a statement by a rule, or a simple one. -/
def statementBy (g : Grammar) (rule : Option StatementRule) : Parse Stmt := fun r =>
  Parse.statementOf g (expression g)
    (fun r' =>
      if r'.remaining < r.remaining then statementBy g (g.statements r'.current.kind) r'
      else Parse.unmet "expected a statement" r')
    (fun r' =>
      if r'.remaining < r.remaining then statementBy g (some .branch) r'
      else Parse.unmet "expected a statement" r')
    rule r
  termination_by r => r.remaining

/-- Reads the statement that the current token starts. -/
def statement (g : Grammar) : Parse Stmt := fun r =>
  statementBy g (g.statements r.current.kind) r

end BuildTyping
