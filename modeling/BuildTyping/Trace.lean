import BuildTyping.Grammar.Program
import BuildTyping.Typing.Inference

/-!
# The trace of a run

All that happens from a source or its tokens to the types of its program, up to the first fault.
-/

namespace BuildTyping

def traceOfTokens (ts : List Token) (file : String) : List Event × Option Fault :=
  match Program.ofTokens ts file with
  | .error fault _ => ([], some fault)
  | .ok p r => (.parsed p.body.length r.count file :: p.events, none)

def traceOfSource (source : List Char) (file : String) : List Event × Option Fault :=
  match tokens source file with
  | .error fault => ([], some fault)
  | .ok ts =>
    let (events, fault) := traceOfTokens ts file
    (.scanned ts.length file :: events, fault)

end BuildTyping
