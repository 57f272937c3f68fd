import BuildTyping.Span
import BuildTyping.Text.Blank
import BuildTyping.Text.Line
import BuildTyping.Text.Padded
import BuildTyping.Text.Quoted

/-!
# Faults of a source

A fault is a cause at a position, and is shown under the line of that position.
-/

namespace BuildTyping

inductive Cause where
  | unrecognisedToken (token : String)
  | unterminatedString
  | inconsistentIndentation
  | unbalancedBracket (bracket : String)
  | unexpectedToken (token : String)
  | unmetExpectation (token message : String)
  | malformedNumber (token : String)
  | unassignableTarget
  deriving DecidableEq, Repr

structure Fault where
  cause : Cause
  position : Position
  deriving DecidableEq, Repr

namespace Cause

def name : Cause → String
  | unrecognisedToken _ => "UnrecognisedToken"
  | unterminatedString => "UnterminatedString"
  | inconsistentIndentation => "InconsistentIndentation"
  | unbalancedBracket _ => "UnbalancedBracket"
  | unexpectedToken _ => "UnexpectedToken"
  | unmetExpectation _ _ => "UnexpectedTokenDetailed"
  | malformedNumber _ => "NumberParseError"
  | unassignableTarget => "InvalidAssignmentTarget"

def message : Cause → String
  | unrecognisedToken token => "unrecognised token: " ++ quote token
  | unterminatedString => "unterminated string literal"
  | inconsistentIndentation => "inconsistent indentation"
  | unbalancedBracket bracket => "unbalanced bracket: " ++ quote bracket
  | unexpectedToken token => "unexpected token: " ++ quote token
  | unmetExpectation token message =>
    "unexpected token (" ++ quote message ++ "): " ++ quote token
  | malformedNumber token => "error parsing number: " ++ quote token
  | unassignableTarget => "invalid assignment target"

/-- What the reader may look for, where there is more to say than the name. -/
def tip : Cause → Option String
  | unrecognisedToken _ => none
  | unterminatedString => some "String literal is never closed"
  | inconsistentIndentation => some "Dedent does not match any outer indentation level"
  | unbalancedBracket bracket =>
    some ("Closing `" ++ bracket ++ "` has no matching opening bracket")
  | unexpectedToken token => some ("Unexpected token: `" ++ token ++ "`")
  | unmetExpectation token message => some ("Unexpected token: `" ++ token ++ "`, " ++ message)
  | malformedNumber token =>
    some ("Invalid number: `" ++ token ++ "`, is it above the integer limit?")
  | unassignableTarget =>
    some "Only names, tuples, lists, attributes and indexes can be assigned to"

end Cause

namespace Fault

def offset (fault : Fault) : Nat := fault.position.offset

def file (fault : Fault) : String := fault.position.file

def message (fault : Fault) : String :=
  fault.cause.message ++ " at " ++ fault.file ++ ":" ++ toString fault.offset

def headline (fault : Fault) : String :=
  match fault.cause.tip with
  | none => "Error: " ++ fault.cause.name
  | some tip => "Error: " ++ fault.cause.name ++ " (" ++ tip ++ ")"

/-- The line of the fault without its indentation, under it an arrow to the faulty byte. -/
def excerpt? (place : Place) : Option (List String) := do
  let number := toString place.number
  let margin ← pad? ' ' (number.length + 2) "|"
  let indent := place.line.takeWhile fun c => c = ' ' || c = '\t'
  let text := trimEnd (place.line.drop indent.length)
  let arrow ← pad? '-' (place.column - byteLength indent + 1) "^"
  return [margin, number ++ " | " ++ String.ofList text, margin ++ " " ++ arrow]

/-- The headline and the file, and the line of the fault if it lies within the source. There is no
text where the formatter refuses a width. -/
def render? (fault : Fault) (source : List Char) : Option String := do
  let location ← match place? source fault.offset with
    | none => some []
    | some place => excerpt? place
  return String.join (([fault.headline, "-> " ++ fault.file] ++ location).map (· ++ "\n"))

end Fault

end BuildTyping
