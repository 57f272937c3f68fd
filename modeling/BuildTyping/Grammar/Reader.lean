import BuildTyping.Fault
import BuildTyping.Syntax.Expr
import BuildTyping.Token.Basic

/-!
# Reading tokens

A reader stands at a token of a list whose last token marks the end of the source, and never goes
past that one. A `Parse` moves the reader and gives a result or a fault; the reader stays where a
fault stopped it.
-/

namespace BuildTyping

structure Reader where
  /-- The tokens already read, the latest first. -/
  consumed : List Token
  current : Token
  upcoming : List Token
  /-- How many moves are left. -/
  remaining : Nat
  /-- How many ids have been given to expressions. -/
  count : Nat
  remaining_eq : remaining = upcoming.length
  deriving DecidableEq, Repr

namespace Reader

/-- A reader between the tokens it has read and those ahead of it. -/
def between (consumed : List Token) (current : Token) (upcoming : List Token) (count : Nat) :
    Reader :=
  ⟨consumed, current, upcoming, upcoming.length, count, rfl⟩

/-- A list of tokens that does not mark its end is given a mark where its last token ends, or at
the beginning of the file if there are no tokens. -/
def start (tokens : List Token) (file : String) : Reader :=
  let last := match tokens.getLast? with
    | some t => if t.kind = .endOfSource then [] else [Token.endAt t.span.stop]
    | none => []
  match tokens ++ last with
  | [] => between [] (.endAt (.ofOffset 0 file)) [] 0
  | t :: ts => between [] t ts 0

def previous? (r : Reader) : Option Token := r.consumed.head?

/-- The kind of the token `n` places ahead. -/
def peek (r : Reader) (n : Nat) : TokenKind :=
  match (r.current :: r.upcoming)[n]? with
  | some t => t.kind
  | none => .endOfSource

def hasTokens (r : Reader) : Bool := r.current.kind != .endOfSource

/-- The reader at the next token, or still at the last. -/
def next (r : Reader) : Reader :=
  match h : r.upcoming with
  | [] => r
  | t :: ts =>
    { r with
      consumed := r.current :: r.consumed, current := t, upcoming := ts
      remaining := r.remaining - 1, remaining_eq := by simp [r.remaining_eq, h] }

/-- From a position to the end of the latest token. -/
def spanFrom (r : Reader) (start : Position) : Span :=
  match r.previous? with
  | some t => ⟨start, t.span.stop⟩
  | none => ⟨start, start⟩

/-- The fault of the current token where something else should stand. -/
def unmet (r : Reader) (message : String) : Fault :=
  ⟨.unmetExpectation r.current.describe message, r.current.span.start⟩

@[simp] theorem remaining_between (consumed : List Token) (current : Token)
    (upcoming : List Token) (count : Nat) :
    (between consumed current upcoming count).remaining = upcoming.length := rfl

@[simp] theorem next_between_nil (consumed : List Token) (current : Token) (count : Nat) :
    (between consumed current [] count).next = between consumed current [] count := rfl

@[simp] theorem next_between_cons (consumed : List Token) (current t : Token) (ts : List Token)
    (count : Nat) :
    (between consumed current (t :: ts) count).next
      = between (current :: consumed) t ts count := rfl

theorem remaining_next (r : Reader) : r.next.remaining = r.remaining - 1 := by
  unfold next
  split
  · rename_i h
    simp [r.remaining_eq, h]
  · rfl

end Reader

abbrev Parse (α : Type) := EStateM Fault Reader α

namespace Parse

/-- The kind of the current token. -/
def kind : Parse TokenKind := do return (← get).current.kind

/-- Moves on and gives the token that was current. -/
def advance : Parse Token := modifyGet fun r => (r.current, r.next)

def spanFrom (start : Position) : Parse Span := do return (← get).spanFrom start

/-- Faults the current token. -/
def unmet {α : Type} (message : String) : Parse α := do throw ((← get).unmet message)

/-- Faults a token by its own text. -/
def unexpected {α : Type} (t : Token) : Parse α := throw ⟨.unexpectedToken t.value, t.span.start⟩

def expect (expected : TokenKind) : Parse Token := do
  let t := (← get).current
  if t.kind = expected then advance
  else throw ⟨.unexpectedToken t.describe, t.span.start⟩

def expectFor (expected : TokenKind) (message : String) : Parse Token := do
  if (← kind) = expected then advance else unmet message

def freshId : Parse Nat := modifyGet fun r => (r.count, { r with count := r.count + 1 })

/-- An expression with the next id. -/
def node (span : Span) (shape : Shape Expr) : Parse Expr := do
  return ⟨← freshId, span, shape⟩

/-- The items up to the first turn that gives none. A turn that reads no token is the last. -/
def many {α : Type} (item : Parse (Option α)) : Parse (List α) := fun r =>
  match item r with
  | .error fault r' => .error fault r'
  | .ok none r' => .ok [] r'
  | .ok (some a) r' =>
    if r'.remaining < r.remaining then
      match many item r' with
      | .error fault r'' => .error fault r''
      | .ok as r'' => .ok (a :: as) r''
    else .ok [a] r'
  termination_by r => r.remaining

/-- Changes a value by turns, up to the first turn that gives none. A turn that reads no token is
the last. -/
def iterate {α : Type} (turn : α → Parse (Option α)) (a : α) : Parse α := fun r =>
  match turn a r with
  | .error fault r' => .error fault r'
  | .ok none r' => .ok a r'
  | .ok (some a') r' => if r'.remaining < r.remaining then iterate turn a' r' else .ok a' r'
  termination_by r => r.remaining

end Parse

end BuildTyping
