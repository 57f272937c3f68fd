import BuildTyping.Grammar.Statement
import BuildTyping.Token.Scan

/-!
# Reading programs
-/

namespace BuildTyping

/-- Reads statements up to the mark of the end. -/
def program (g : Grammar) (file : String) : Parse Program := do
  let statements ← Parse.many do
    if (← get).hasTokens then some <$> statement g else return none
  return ⟨statements, (← get).current.span.stop, file⟩

namespace Program

/-- The program of a list of tokens, and the reader where it ended or a fault stopped it. -/
def ofTokens (tokens : List Token) (file : String) : EStateM.Result Fault Reader Program :=
  program .standard file (Reader.start tokens file)

/-- The program of a source. -/
def ofSource (source : List Char) (file : String) : Except Fault Program :=
  match BuildTyping.tokens source file with
  | .error fault => .error fault
  | .ok tokens =>
    match ofTokens tokens file with
    | .ok program _ => .ok program
    | .error fault _ => .error fault

end Program

end BuildTyping
