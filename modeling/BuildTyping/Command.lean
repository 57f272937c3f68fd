import BuildTyping.Grammar.Program
import BuildTyping.Report.Annotated
import BuildTyping.Report.Listing
import BuildTyping.Syntax.Outline
import BuildTyping.Typing.Inference

/-!
# The command line

What a run of the command writes and how it ends, given its arguments and what became of reading
its input.
-/

namespace BuildTyping.Command

inductive Format where
  | annotate | list
  deriving DecidableEq, Repr

structure Options where
  format : Format
  showTokens : Bool
  showTree : Bool
  path : Option String
  deriving DecidableEq, Repr

namespace Options

def initial : Options := ⟨.annotate, false, false, none⟩

def format? (name : String) : Option Format :=
  if name = "annotate" then some .annotate else if name = "list" then some .list else none

/-- Reads the arguments from left to right. A value follows its option as the next argument or
after an equals sign. Any other argument is the path of the input, as is the one after `--`. -/
def read? (options : Options) : List String → Option Options
  | [] => some options
  | ["--", path] => some { options with path := some path }
  | "--dump-tokens" :: args => read? { options with showTokens := true } args
  | "--dump-ast" :: args => read? { options with showTree := true } args
  | "--format" :: name :: args =>
    match format? name with
    | some format => read? { options with format } args
    | none => none
  | arg :: args =>
    match (format? (arg.dropPrefix "--format=").toString), arg.startsWith "--format=" with
    | some format, true => read? { options with format } args
    | none, true => none
    | _, false =>
      if arg.startsWith "-" then none else read? { options with path := some arg } args

end Options

/-- Why an input could not be read. -/
inductive ReadFault where
  | missing | directory | notText
  deriving DecidableEq, Repr

def ReadFault.message : ReadFault → String
  | missing => "No such file or directory (os error 2)"
  | directory => "Is a directory (os error 21)"
  | notText => "stream did not contain valid UTF-8"

/-- The text of an input, if its bytes are UTF-8. -/
def decode (bytes : ByteArray) : Except ReadFault String :=
  match String.fromUTF8? bytes with
  | some text => .ok text
  | none => .error .notText

/-- How a run ends: well, with a fault, or stopped by the formatter. -/
inductive Ending where
  | success | failure | panic
  deriving DecidableEq, Repr

def Ending.code : Ending → UInt32
  | success => 0
  | failure => 1
  | panic => 101

structure Outcome where
  ending : Ending
  output : String
  errors : String
  deriving DecidableEq, Repr

/-- What the formatter says when it refuses a width. The place in the program and the thread, which
are written with it, are left out. -/
def formatterPanic : String := "Formatting argument out of range"

/-- The end of a run with a fault in its source. -/
def Outcome.ofFault (output : String) (fault : Fault) (source : List Char) : Outcome :=
  match fault.render? source with
  | some text => ⟨.failure, output, text⟩
  | none => ⟨.panic, output, formatterPanic ++ "\n"⟩

/-- The last name in a path, or the whole path if it ends in no name. -/
def fileName (path : String) : String :=
  let names := (path.splitOn "/").filter (· != "")
  let named := names.take 1 ++ (names.drop 1).filter (· != ".")
  match named.getLast? with
  | some name => if name = "." ∨ name = ".." then path else name
  | none => path

def tokenLines (tokens : List Token) : String :=
  String.join (tokens.map fun t => t.summary ++ "\n")

/-- What is written about a program without faults. -/
def report (options : Options) (source : List Char) (p : Program) : String :=
  (if options.showTree then p.outline.text ++ "\n" else "") ++
    match options.format with
    | .annotate => String.ofList (annotated source p p.types)
    | .list => String.join ((listing source p p.types).map fun x => x.text ++ "\n")

/-- A run on a source. The tokens are written before a fault in the program is found. -/
def runOn (options : Options) (file : String) (source : List Char) : Outcome :=
  match tokens source file with
  | .error fault => .ofFault "" fault source
  | .ok ts =>
    let listed := if options.showTokens then tokenLines ts else ""
    match Program.ofTokens ts file with
    | .error fault _ => .ofFault listed fault source
    | .ok p _ => ⟨.success, listed ++ report options source p, ""⟩

def run (options : Options) (path : String) (input : Except ReadFault String) : Outcome :=
  match input with
  | .error fault =>
    ⟨.failure, "", "error: failed to read " ++ path ++ ": " ++ fault.message ++ "\n"⟩
  | .ok text => runOn options (fileName path) text.toList

end BuildTyping.Command
