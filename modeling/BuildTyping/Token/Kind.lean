/-!
# Kinds of tokens

Brackets, signs and keywords are closed families, each with its spelling in the source.
-/

namespace BuildTyping

inductive Bracket where
  | round | square | curly
  deriving DecidableEq, Repr

inductive Sign where
  | assign | equal | notEqual | less | lessEqual | greater | greaterEqual
  | dot | semicolon | colon | comma
  | plusAssign | minusAssign | starAssign | slashAssign | slashSlashAssign | percentAssign
  | pipeAssign
  | plus | minus | star | starStar | slash | slashSlash | percent | pipe | ampersand | caret
  | tilde | shiftLeft | shiftRight
  deriving DecidableEq, Repr

inductive Keyword where
  | def_ | return_ | if_ | elif | else_ | for_ | in_ | not_ | and_ | or_ | pass | break_
  | continue_ | true_ | false_ | none_
  deriving DecidableEq, Repr

/-- Line ends, the beginning and the end of a block and the end of the source are tokens too. -/
inductive TokenKind where
  | endOfSource | int | float | string | identifier
  | newline | indent | dedent
  | opening (bracket : Bracket)
  | closing (bracket : Bracket)
  | sign (sign : Sign)
  | keyword (word : Keyword)
  deriving DecidableEq, Repr

namespace Bracket

def all : List Bracket := [round, square, curly]

def opener : Bracket → Char
  | round => '('
  | square => '['
  | curly => '\x7b'

def closer : Bracket → Char
  | round => ')'
  | square => ']'
  | curly => '\x7d'

def name : Bracket → String
  | round => "Paren"
  | square => "Bracket"
  | curly => "Curly"

theorem mem_all (b : Bracket) : b ∈ all := by cases b <;> decide

end Bracket

namespace Sign

/-- No sign comes before a longer sign that it begins. -/
def all : List Sign :=
  [equal, notEqual, assign, shiftLeft, shiftRight, lessEqual, less, greaterEqual, greater, dot,
    semicolon, colon, comma, plusAssign, minusAssign, starAssign, slashSlashAssign, slashAssign,
    percentAssign, pipeAssign, starStar, star, slashSlash, slash, plus, minus, percent, pipe,
    ampersand, caret, tilde]

def text : Sign → String
  | assign => "="
  | equal => "=="
  | notEqual => "!="
  | less => "<"
  | lessEqual => "<="
  | greater => ">"
  | greaterEqual => ">="
  | dot => "."
  | semicolon => ";"
  | colon => ":"
  | comma => ","
  | plusAssign => "+="
  | minusAssign => "-="
  | starAssign => "*="
  | slashAssign => "/="
  | slashSlashAssign => "//="
  | percentAssign => "%="
  | pipeAssign => "|="
  | plus => "+"
  | minus => "-"
  | star => "*"
  | starStar => "**"
  | slash => "/"
  | slashSlash => "//"
  | percent => "%"
  | pipe => "|"
  | ampersand => "&"
  | caret => "^"
  | tilde => "~"
  | shiftLeft => "<<"
  | shiftRight => ">>"

def name : Sign → String
  | assign => "Assignment"
  | equal => "Equals"
  | notEqual => "NotEquals"
  | less => "Less"
  | lessEqual => "LessEquals"
  | greater => "Greater"
  | greaterEqual => "GreaterEquals"
  | dot => "Dot"
  | semicolon => "Semicolon"
  | colon => "Colon"
  | comma => "Comma"
  | plusAssign => "PlusEquals"
  | minusAssign => "MinusEquals"
  | starAssign => "StarEquals"
  | slashAssign => "SlashEquals"
  | slashSlashAssign => "SlashSlashEquals"
  | percentAssign => "PercentEquals"
  | pipeAssign => "PipeEquals"
  | plus => "Plus"
  | minus => "Dash"
  | star => "Star"
  | starStar => "StarStar"
  | slash => "Slash"
  | slashSlash => "SlashSlash"
  | percent => "Percent"
  | pipe => "Pipe"
  | ampersand => "Ampersand"
  | caret => "Caret"
  | tilde => "Tilde"
  | shiftLeft => "ShiftLeft"
  | shiftRight => "ShiftRight"

/-- The assignments that first combine the old value with the new one. -/
def isAugmented : Sign → Bool
  | plusAssign | minusAssign | starAssign | slashAssign | slashSlashAssign | percentAssign
  | pipeAssign => true
  | _ => false

theorem mem_all (s : Sign) : s ∈ all := by cases s <;> decide

theorem text_ne_empty (s : Sign) : s.text.toList ≠ [] := by cases s <;> decide

end Sign

namespace Keyword

def all : List Keyword :=
  [def_, return_, if_, elif, else_, for_, in_, not_, and_, or_, pass, break_, continue_, true_,
    false_, none_]

def text : Keyword → String
  | def_ => "def"
  | return_ => "return"
  | if_ => "if"
  | elif => "elif"
  | else_ => "else"
  | for_ => "for"
  | in_ => "in"
  | not_ => "not"
  | and_ => "and"
  | or_ => "or"
  | pass => "pass"
  | break_ => "break"
  | continue_ => "continue"
  | true_ => "True"
  | false_ => "False"
  | none_ => "None"

/-- The text with a capital. -/
def name : Keyword → String
  | def_ => "Def"
  | return_ => "Return"
  | if_ => "If"
  | elif => "Elif"
  | else_ => "Else"
  | for_ => "For"
  | in_ => "In"
  | not_ => "Not"
  | and_ => "And"
  | or_ => "Or"
  | pass => "Pass"
  | break_ => "Break"
  | continue_ => "Continue"
  | true_ => "True"
  | false_ => "False"
  | none_ => "None"

/-- The keyword with this spelling. -/
def ofText? (s : String) : Option Keyword := all.find? fun k => k.text == s

theorem mem_all (k : Keyword) : k ∈ all := by cases k <;> decide

@[simp] theorem ofText?_text (k : Keyword) : ofText? k.text = some k := by cases k <;> decide

theorem text_of_ofText? {s : String} {k : Keyword} (h : ofText? s = some k) : k.text = s := by
  simpa using List.find?_some h

end Keyword

namespace TokenKind

def all : List TokenKind :=
  [endOfSource, int, float, string, identifier, newline, indent, dedent] ++
    Bracket.all.map opening ++ Bracket.all.map closing ++ Sign.all.map sign ++
    Keyword.all.map keyword

def name : TokenKind → String
  | endOfSource => "EOF"
  | int => "Int"
  | float => "Float"
  | string => "String"
  | identifier => "Identifier"
  | newline => "Newline"
  | indent => "Indent"
  | dedent => "Dedent"
  | opening b => "Open" ++ b.name
  | closing b => "Close" ++ b.name
  | sign s => s.name
  | keyword k => k.name

def ofName? (s : String) : Option TokenKind := all.find? fun kind => kind.name == s

def isAugmented : TokenKind → Bool
  | sign s => s.isAugmented
  | _ => false

/-- The kinds that shape lines and blocks and have no text of their own. -/
def isLayout : TokenKind → Bool
  | newline | indent | dedent => true
  | _ => false

theorem mem_all (kind : TokenKind) : kind ∈ all := by
  cases kind <;> simp [all, Bracket.mem_all, Sign.mem_all, Keyword.mem_all]

end TokenKind

end BuildTyping
