import BuildTyping.Grammar.Precedence
import BuildTyping.Token.Kind

/-!
# Grammars

A grammar says by the kind of a token which expressions and statements it starts, and which
expressions it continues and how tightly.
-/

namespace BuildTyping

/-- How an expression starts. -/
inductive StartRule where
  | atom | unary | group | list | dict
  deriving DecidableEq, Repr

/-- How an expression that is already read goes on. -/
inductive ContinueRule where
  | binary | power | notIn | conditional | call | subscript | member
  deriving DecidableEq, Repr

inductive StatementRule where
  | define | return_ | branch | loop | word
  deriving DecidableEq, Repr

structure Grammar where
  starts : TokenKind → Option StartRule
  continues : TokenKind → Option (Precedence × ContinueRule)
  statements : TokenKind → Option StatementRule

namespace Grammar

def empty : Grammar := ⟨fun _ => none, fun _ => none, fun _ => none⟩

def withStart (g : Grammar) (kind : TokenKind) (rule : StartRule) : Grammar :=
  { g with starts := fun k => if k = kind then some rule else g.starts k }

def withContinue (g : Grammar) (kind : TokenKind) (precedence : Precedence)
    (rule : ContinueRule) : Grammar :=
  { g with continues := fun k => if k = kind then some (precedence, rule) else g.continues k }

def withStatement (g : Grammar) (kind : TokenKind) (rule : StatementRule) : Grammar :=
  { g with statements := fun k => if k = kind then some rule else g.statements k }

/-- How tightly a token binds after an expression. -/
def precedence (g : Grammar) (kind : TokenKind) : Precedence :=
  match g.continues kind with
  | some (precedence, _) => precedence
  | none => .lowest

def standardStarts : TokenKind → Option StartRule
  | .int | .float | .string | .identifier => some .atom
  | .keyword .true_ | .keyword .false_ | .keyword .none_ => some .atom
  | .sign .minus | .sign .plus | .sign .tilde | .keyword .not_ => some .unary
  | .opening .round => some .group
  | .opening .square => some .list
  | .opening .curly => some .dict
  | _ => none

def standardContinues : TokenKind → Option (Precedence × ContinueRule)
  | .keyword .if_ => some (.conditional, .conditional)
  | .keyword .or_ => some (.disjunction, .binary)
  | .keyword .and_ => some (.conjunction, .binary)
  | .keyword .in_ => some (.comparison, .binary)
  | .keyword .not_ => some (.comparison, .notIn)
  | .sign .less | .sign .lessEqual | .sign .greater | .sign .greaterEqual
  | .sign .equal | .sign .notEqual => some (.comparison, .binary)
  | .sign .pipe => some (.bitOr, .binary)
  | .sign .caret => some (.bitXor, .binary)
  | .sign .ampersand => some (.bitAnd, .binary)
  | .sign .shiftLeft | .sign .shiftRight => some (.shift, .binary)
  | .sign .plus | .sign .minus => some (.additive, .binary)
  | .sign .star | .sign .slash | .sign .slashSlash | .sign .percent =>
    some (.multiplicative, .binary)
  | .sign .starStar => some (.power, .power)
  | .opening .round => some (.call, .call)
  | .opening .square => some (.call, .subscript)
  | .sign .dot => some (.call, .member)
  | _ => none

def standardStatements : TokenKind → Option StatementRule
  | .keyword .def_ => some .define
  | .keyword .return_ => some .return_
  | .keyword .if_ => some .branch
  | .keyword .for_ => some .loop
  | .keyword .pass | .keyword .break_ | .keyword .continue_ => some .word
  | _ => none

/-- The grammar of build files. -/
def standard : Grammar := ⟨standardStarts, standardContinues, standardStatements⟩

end Grammar

end BuildTyping
