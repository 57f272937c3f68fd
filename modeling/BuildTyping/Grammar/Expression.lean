import BuildTyping.Grammar.Reader
import BuildTyping.Grammar.Table
import BuildTyping.Number.Integer

/-!
# Reading expressions

Each rule of a grammar reads one form of expression and takes for its parts a reader of smaller
expressions by their least precedence. `expression` ties the knot: a part begins after the token
that led to it, so the tokens that are left grow fewer.
-/

namespace BuildTyping

namespace Parse

variable (g : Grammar) (sub : Precedence → Parse Expr)

/-- Whether the current token can start an expression. -/
def atStart : Parse Bool := do return (g.starts (← kind)).isSome

/-- Expressions between commas. More than one, or a comma at the end, make a tuple. -/
def commaList (precedence : Precedence) : Parse Expr := do
  let first ← sub precedence
  if (← kind) = .sign .comma then
    let others ← many do
      if (← kind) = .sign .comma then
        let _ ← advance
        if ← atStart g then some <$> sub precedence else return none
      else return none
    node (← spanFrom first.span.start) (.tuple (first :: others))
  else return first

def exprList : Parse Expr := commaList g sub .lowest

/-- The targets of a loop, which end before `in`. -/
def targetList : Parse Expr := commaList g sub .comparison

/-- A literal or a name. -/
def atom : Parse Expr := do
  let t := (← get).current
  let malformed : Fault := ⟨.malformedNumber t.value, t.span.start⟩
  let leaf (shape : Shape Expr) : Parse Expr := do
    let _ ← advance
    node t.span shape
  match t.kind with
  | .int =>
    match Integer.read? t.value.toList with
    | some n => leaf (.literal (.int n))
    | none => throw malformed
  | .float =>
    match Binary64.read? t.value.toList with
    | some x => leaf (.literal (.float x))
    | none => throw malformed
  | .string => leaf (.literal (.string t.value))
  | .keyword .true_ => leaf (.literal (.bool true))
  | .keyword .false_ => leaf (.literal (.bool false))
  | .keyword .none_ => leaf (.literal .none)
  | .identifier => leaf (.name t.value)
  | _ => unmet "expected a literal or identifier"

/-- The operand of `not` binds less tightly than that of a sign. -/
def operandPrecedence : UnaryOp → Precedence
  | .not_ => .negation
  | _ => .unary

def unary : Parse Expr := do
  let t ← advance
  match UnaryOp.ofKind? t.kind with
  | some op =>
    let operand ← sub (operandPrecedence op)
    node ⟨t.span.start, operand.span.stop⟩ (.unary op operand)
  | none => unexpected t

/-- Round brackets around an expression widen its span, and around nothing make an empty tuple. -/
def group : Parse Expr := do
  let start := (← advance).span.start
  if (← kind) = .closing .round then
    let _ ← advance
    node (← spanFrom start) (.tuple [])
  else
    let inner ← exprList g sub
    let _ ← expect (.closing .round)
    return { inner with span := ← spanFrom start }

/-- The clauses of a comprehension, up to the first token that starts none. -/
def clauses : Parse (List (Clause Expr)) := many do
  match ← kind with
  | .keyword .for_ =>
    let _ ← advance
    let target ← targetList g sub
    let _ ← expect (.keyword .in_)
    return some (.each target (← sub .conditional))
  | .keyword .if_ =>
    let _ ← advance
    return some (.only (← sub .conditional))
  | _ => return none

/-- Items between commas up to a closing bracket, or a comprehension of the first one. -/
def bracketed {α : Type} (bracket : Bracket) (item : Parse α) (collect : List α → Shape Expr)
    (comprehend : α → List (Clause Expr) → Shape Expr) : Parse Expr := do
  let start := (← advance).span.start
  let close (shape : Shape Expr) : Parse Expr := do
    let _ ← expect (.closing bracket)
    node (← spanFrom start) shape
  if (← kind) = .closing bracket then close (collect [])
  else
    let first ← item
    if (← kind) = .keyword .for_ then close (comprehend first (← clauses g sub))
    else
      let others ← many do
        if (← kind) = .sign .comma then
          let _ ← advance
          if (← kind) = .closing bracket then return none else some <$> item
        else return none
      close (collect (first :: others))

def list : Parse Expr := bracketed g sub .square (sub .lowest) .list .listComp

def entry : Parse (Entry Expr) := do
  let key ← sub .lowest
  let _ ← expectFor (.sign .colon) "expected `:` after dictionary key"
  return ⟨key, ← sub .lowest⟩

def dict : Parse Expr := bracketed g sub .curly (entry sub) .dict .dictComp

/-- A binary expression reaches from its left operand to its right one. -/
def binaryNode (op : BinaryOp) (left right : Expr) : Parse Expr :=
  node ⟨left.span.start, right.span.stop⟩ (.binary op left right)

/-- The right operand binds more tightly than the operator, so equal operators group leftwards. -/
def binary (left : Expr) (precedence : Precedence) : Parse Expr := do
  let t ← advance
  match BinaryOp.ofKind? t.kind with
  | some op => binaryNode op left (← sub precedence)
  | none => unexpected t

/-- The right operand may be another power, so powers group rightwards. -/
def power (left : Expr) : Parse Expr := do
  let _ ← advance
  binaryNode .power left (← sub .unary)

def notIn (left : Expr) (precedence : Precedence) : Parse Expr := do
  let _ ← advance
  let _ ← expectFor (.keyword .in_) "expected `in` after `not`"
  binaryNode .notIn left (← sub precedence)

def conditional (left : Expr) : Parse Expr := do
  let _ ← advance
  let condition ← sub .conditional
  let _ ← expectFor (.keyword .else_) "expected `else` in conditional expression"
  let other ← sub .lowest
  node ⟨left.span.start, other.span.stop⟩ (.conditional left condition other)

def argument : Parse (Argument Expr) := do
  let r ← get
  match r.current.kind with
  | .sign .star =>
    let _ ← advance
    return .unpack (← sub .lowest)
  | .sign .starStar =>
    let _ ← advance
    return .unpackKeywords (← sub .lowest)
  | .identifier =>
    if r.peek 1 = .sign .assign then
      let name ← advance
      let _ ← advance
      return .keyword name.value name.span (← sub .lowest)
    else return .positional (← sub .lowest)
  | _ => return .positional (← sub .lowest)

/-- Reads the comma after an item, which may be missing before a closing round bracket. -/
def separator (message : String) : Parse Unit := do
  let k ← kind
  if k = .sign .comma then
    let _ ← advance
  else if k ≠ .closing .round then unmet message

def call (left : Expr) : Parse Expr := do
  let _ ← advance
  let arguments ← many do
    if (← kind) = .closing .round then return none
    else
      let a ← argument sub
      separator "expected `,` or `)` in argument list"
      return some a
  let _ ← expect (.closing .round)
  node (← spanFrom left.span.start) (.call left arguments)

/-- A bound of a slice, which may be missing. -/
def bound : Parse (Option Expr) := do
  match ← kind with
  | .sign .colon | .closing .square => return none
  | _ => some <$> sub .lowest

/-- The rest of a subscript after its first bound or index. -/
def subscriptRest (left : Expr) (lower : Option Expr) : Parse (Shape Expr) := do
  if (← kind) = .sign .colon then
    let _ ← advance
    let upper ← bound sub
    if (← kind) = .sign .colon then
      let _ ← advance
      return .slice left lower upper (← bound sub)
    else return .slice left lower upper none
  else
    match lower with
    | some key => return .index left key
    | none => unmet "expected an index expression"

/-- What stands between square brackets after an expression: an index, or up to three bounds. -/
def subscriptShape (left : Expr) : Parse (Shape Expr) := do
  if (← kind) = .sign .colon then subscriptRest sub left none
  else subscriptRest sub left (some (← exprList g sub))

def subscript (left : Expr) : Parse Expr := do
  let _ ← advance
  let shape ← subscriptShape g sub left
  let _ ← expect (.closing .square)
  node (← spanFrom left.span.start) shape

def member (left : Expr) : Parse Expr := do
  let _ ← advance
  let name ← expectFor .identifier "expected attribute name after `.`"
  node (← spanFrom left.span.start) (.member left name.value)

def startWith : StartRule → Parse Expr
  | .atom => atom
  | .unary => unary sub
  | .group => group g sub
  | .list => list g sub
  | .dict => dict g sub

def continueWith (left : Expr) (precedence : Precedence) : ContinueRule → Parse Expr
  | .binary => binary sub left precedence
  | .power => power sub left
  | .notIn => notIn sub left precedence
  | .conditional => conditional sub left
  | .call => call sub left
  | .subscript => subscript g sub left
  | .member => member left

/-- Goes on with an expression if the current token binds more tightly than `least`. -/
def extend (least : Precedence) (left : Expr) : Parse (Option Expr) := do
  match g.continues (← kind) with
  | some (precedence, rule) =>
    if least < precedence then some <$> continueWith g sub left precedence rule else return none
  | none => return none

/-- An expression of parts: its start, and as much more as binds more tightly than `least`. -/
def expressionOf (least : Precedence) : Parse Expr := do
  match g.starts (← kind) with
  | some rule => iterate (extend g sub least) (← startWith g sub rule)
  | none => unmet "expected an expression"

end Parse

/-- Reads an expression all of whose operators outside brackets bind more tightly than `least`.
A part that begins where the whole began, as only the mark of the end allows, has no parts. -/
def expression (g : Grammar) (least : Precedence) : Parse Expr := fun r =>
  Parse.expressionOf g
    (fun precedence r' =>
      if r'.remaining < r.remaining then expression g precedence r'
      else Parse.expressionOf g (fun _ => Parse.unmet "expected an expression") precedence r')
    least r
  termination_by r => r.remaining

end BuildTyping
