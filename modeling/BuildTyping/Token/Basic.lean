import BuildTyping.Span
import BuildTyping.Token.Kind
import BuildTyping.Text.Quoted

/-!
# Tokens
-/

namespace BuildTyping

/-- For a string the value is the decoded text, for a layout token it is empty, and otherwise it
is the text of the token. -/
structure Token where
  kind : TokenKind
  value : String
  span : Span
  deriving DecidableEq, Repr

namespace Token

def layout (kind : TokenKind) (span : Span) : Token := ⟨kind, "", span⟩

/-- The token that ends every list of tokens. -/
def endAt (position : Position) : Token := ⟨.endOfSource, "EOF", ⟨position, position⟩⟩

/-- How a message names the token. -/
def describe (t : Token) : String :=
  match t.kind with
  | .newline => "newline"
  | .indent => "indent"
  | .dedent => "dedent"
  | .endOfSource => "end of file"
  | _ => t.value

/-- The kind and the start of the token, with the value where the kind does not tell it. -/
def summary (t : Token) : String :=
  let value := match t.kind with
    | .string | .identifier | .int | .float => " (" ++ quote t.value ++ ")"
    | _ => ""
  t.kind.name ++ value ++ " @ " ++ toString t.span.start.offset

/-- The kind and the value as a record. -/
def toRecord (t : Token) : String :=
  "Token \x7b\nkind: " ++ t.kind.name ++ ",\nvalue: " ++ t.value ++ "\x7d"

end Token

end BuildTyping
