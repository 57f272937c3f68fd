import BuildTyping.Span
import BuildTyping.Text.Bytes

/-!
# Cursors

A place in a source, from which it is looked at and moved by hand. A cursor may stand past the end.
-/

namespace BuildTyping

structure Cursor where
  source : List Char
  offset : Nat
  deriving DecidableEq, Repr

namespace Cursor

def start (source : List Char) : Cursor := ⟨source, 0⟩

def advance (c : Cursor) (bytes : Nat) : Cursor := { c with offset := c.offset + bytes }

def rest (c : Cursor) : List Char := dropBytes c.offset c.source

def current? (c : Cursor) : Option Char := c.rest.head?

def atEnd (c : Cursor) : Bool := byteLength c.source ≤ c.offset

end Cursor

end BuildTyping
