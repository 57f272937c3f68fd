/-!
# Outlines

A value written over several lines, with four spaces for each level and a comma after each item.
-/

namespace BuildTyping

inductive Outline where
  | atom (text : String)
  | list (items : List Outline)
  /-- A name with items between round brackets. -/
  | tuple (name : String) (items : List Outline)
  /-- A name with named fields between curly brackets. -/
  | record (name : String) (fields : List (String × Outline))
  deriving Repr

namespace Outline

/-- A line break and the indentation of a level. -/
def newline (level : Nat) : List Char := '\n' :: List.replicate (4 * level) ' '

mutual

/-- Writes a value whose first line stands at a level before the text that follows it. -/
def write (level : Nat) (rest : List Char) : Outline → List Char
  | atom text => text.toList ++ rest
  | list [] => '[' :: ']' :: rest
  | list (item :: items) =>
    '[' :: writeItems (level + 1) (newline level ++ ']' :: rest) (item :: items)
  | tuple name items =>
    name.toList ++ '(' :: writeItems (level + 1) (newline level ++ ')' :: rest) items
  | record name fields =>
    name.toList ++ ' ' :: '\x7b' :: writeFields (level + 1) (newline level ++ '\x7d' :: rest) fields

def writeItems (level : Nat) (rest : List Char) : List Outline → List Char
  | [] => rest
  | item :: items => newline level ++ write level (',' :: writeItems level rest items) item

def writeFields (level : Nat) (rest : List Char) : List (String × Outline) → List Char
  | [] => rest
  | (name, value) :: fields =>
    newline level ++ name.toList ++ ':' :: ' ' ::
      write level (',' :: writeFields level rest fields) value

end

def text (value : Outline) : String := String.ofList (value.write 0 [])

end Outline

end BuildTyping
