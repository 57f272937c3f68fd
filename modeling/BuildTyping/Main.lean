import BuildTyping.Command

/-!
# The program

Reads its arguments and its input, and writes what the command says.
-/

namespace BuildTyping.Command

def readInput (path : String) : IO (Except ReadFault String) := do
  match ← (IO.FS.readBinFile path).toBaseIO with
  | .ok bytes => return decode bytes
  | .error (.noFileOrDirectory ..) => return .error .missing
  | .error _ => return .error .directory

def execute (options : Options) (path : String) : IO UInt32 := do
  let outcome := run options path (← readInput path)
  IO.print outcome.output
  IO.eprint outcome.errors
  return outcome.ending.code

end BuildTyping.Command

def main (args : List String) : IO UInt32 := do
  match BuildTyping.Command.Options.initial.read? args with
  | some options =>
    match options.path with
    | some path => BuildTyping.Command.execute options path
    | none =>
      IO.eprintln "error: an input is required"
      return 2
  | none =>
    IO.eprintln "error: the arguments were not understood"
    return 2
