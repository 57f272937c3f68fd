import BuildTyping.Token.Kind

/-!
# Operators
-/

namespace BuildTyping

inductive BinaryOp where
  | add | subtract | multiply | divide | floorDivide | modulo | power
  | bitOr | bitAnd | bitXor | shiftLeft | shiftRight
  | equal | notEqual | less | lessEqual | greater | greaterEqual
  | in_ | notIn | and_ | or_
  deriving DecidableEq, Repr

inductive UnaryOp where
  | negate | plus | invert | not_
  deriving DecidableEq, Repr

namespace BinaryOp

def all : List BinaryOp :=
  [add, subtract, multiply, divide, floorDivide, modulo, power, bitOr, bitAnd, bitXor, shiftLeft,
    shiftRight, equal, notEqual, less, lessEqual, greater, greaterEqual, in_, notIn, and_, or_]

def text : BinaryOp → String
  | add => "+"
  | subtract => "-"
  | multiply => "*"
  | divide => "/"
  | floorDivide => "//"
  | modulo => "%"
  | power => "**"
  | bitOr => "|"
  | bitAnd => "&"
  | bitXor => "^"
  | shiftLeft => "<<"
  | shiftRight => ">>"
  | equal => "=="
  | notEqual => "!="
  | less => "<"
  | lessEqual => "<="
  | greater => ">"
  | greaterEqual => ">="
  | in_ => "in"
  | notIn => "not in"
  | and_ => "and"
  | or_ => "or"

def name : BinaryOp → String
  | add => "Add"
  | subtract => "Subtract"
  | multiply => "Multiply"
  | divide => "Divide"
  | floorDivide => "FloorDivide"
  | modulo => "Modulo"
  | power => "Power"
  | bitOr => "BitOr"
  | bitAnd => "BitAnd"
  | bitXor => "BitXor"
  | shiftLeft => "ShiftLeft"
  | shiftRight => "ShiftRight"
  | equal => "Equals"
  | notEqual => "NotEquals"
  | less => "Less"
  | lessEqual => "LessEquals"
  | greater => "Greater"
  | greaterEqual => "GreaterEquals"
  | in_ => "In"
  | notIn => "NotIn"
  | and_ => "And"
  | or_ => "Or"

def ofSign? : Sign → Option BinaryOp
  | .plus | .plusAssign => some add
  | .minus | .minusAssign => some subtract
  | .star | .starAssign => some multiply
  | .slash | .slashAssign => some divide
  | .slashSlash | .slashSlashAssign => some floorDivide
  | .percent | .percentAssign => some modulo
  | .starStar => some power
  | .pipe | .pipeAssign => some bitOr
  | .ampersand => some bitAnd
  | .caret => some bitXor
  | .shiftLeft => some shiftLeft
  | .shiftRight => some shiftRight
  | .equal => some equal
  | .notEqual => some notEqual
  | .less => some less
  | .lessEqual => some lessEqual
  | .greater => some greater
  | .greaterEqual => some greaterEqual
  | _ => none

/-- The operator that a token writes, between operands or in an augmented assignment. No token
alone writes `not in`. -/
def ofKind? : TokenKind → Option BinaryOp
  | .sign s => ofSign? s
  | .keyword .in_ => some in_
  | .keyword .and_ => some and_
  | .keyword .or_ => some or_
  | _ => none

theorem mem_all (op : BinaryOp) : op ∈ all := by cases op <;> decide

theorem ofSign?_isSome_of_isAugmented {s : Sign} (h : s.isAugmented = true) :
    (ofSign? s).isSome = true := by
  cases s <;> simp_all [Sign.isAugmented, ofSign?]

end BinaryOp

namespace UnaryOp

def all : List UnaryOp := [negate, plus, invert, not_]

def text : UnaryOp → String
  | negate => "-"
  | plus => "+"
  | invert => "~"
  | not_ => "not"

def name : UnaryOp → String
  | negate => "Negate"
  | plus => "Plus"
  | invert => "Invert"
  | not_ => "Not"

def ofKind? : TokenKind → Option UnaryOp
  | .sign .minus => some negate
  | .sign .plus => some plus
  | .sign .tilde => some invert
  | .keyword .not_ => some not_
  | _ => none

theorem mem_all (op : UnaryOp) : op ∈ all := by cases op <;> decide

end UnaryOp

end BuildTyping
