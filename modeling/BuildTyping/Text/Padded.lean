/-!
# Padded text
-/

namespace BuildTyping

/-- A text behind as many fill characters as make it `width` characters long. The formatter takes
widths of 16 bits, and a greater one stops the program. -/
def pad? (fill : Char) (width : Nat) (text : String) : Option String :=
  if width < UInt16.size then
    some (String.ofList (List.replicate (width - text.length) fill) ++ text)
  else none

end BuildTyping
