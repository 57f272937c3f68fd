import BuildTyping.Typing.Ty

/-!
# What happens while types are inferred
-/

namespace BuildTyping

inductive Level where
  | debug | trace
  deriving DecidableEq, Repr

inductive Event where
  | scanned (tokens : Nat) (file : String)
  | parsed (statements expressions : Nat) (file : String)
  | entered (function : String) (depth : Nat)
  | left (function : Option String) (bindings : Nat)
  | typedParameter (name function : String) (ty : Ty)
  | recorded (id : Nat) (ty : Ty)
  | finished (types : Nat) (file : String)
  /-- A scope was to be left with none around it. -/
  | refusedToLeave
  deriving DecidableEq, Repr

namespace Event

def level : Event → Level
  | recorded _ _ => .trace
  | _ => .debug

def text : Event → String
  | scanned tokens file => "lexed " ++ toString tokens ++ " tokens from " ++ file
  | parsed statements expressions file =>
    "parsed " ++ toString statements ++ " top-level statements and " ++ toString expressions
      ++ " expressions from " ++ file
  | entered function depth =>
    "entering scope of `" ++ function ++ "` at depth " ++ toString depth
  | left function bindings =>
    "leaving scope of `" ++ function.getD "<module>" ++ "` with " ++ toString bindings
      ++ " bindings"
  | typedParameter name function ty =>
    "parameter `" ++ name ++ "` of `" ++ function ++ "` is " ++ ty.name
  | recorded id ty => "#" ++ toString id ++ " : " ++ ty.name
  | finished types file => "recorded " ++ toString types ++ " expression types in " ++ file
  | refusedToLeave => "no scope to leave"

end Event

end BuildTyping
