import BuildTyping.Text.Letter
import BuildTyping.Token.Kind
import BuildTyping.Token.Quotation

/-!
# Lexemes

The next piece of a source and what it is. The forms are tried in a fixed order, and the first
that fits decides, so a quote opens a literal before a letter starts a word, and a point followed
by a digit starts a number before it stands alone.
-/

namespace BuildTyping

inductive Lexeme where
  /-- Blanks, a line end after a backslash, or a comment. -/
  | gap
  | lineEnd
  | string
  | unterminated
  | number
  | word
  | opening (bracket : Bracket)
  | closing (bracket : Bracket)
  | sign (sign : Sign)
  deriving DecidableEq, Repr

namespace Lexeme

open Numeral (countWhile countWhile_le)

/-- The white space that separates lexemes within a line. -/
def isSpace (c : Char) : Bool := c == ' ' || c == '\t' || c == '\x0c'

def isWordStart (c : Char) : Bool := isLetter c || c == '_'

def isWordRest (c : Char) : Bool := isLetter c || isNumeral c || c == '_'

def gapLength : List Char → Nat
  | '\\' :: '\n' :: _ => 2
  | '\\' :: '\r' :: '\n' :: _ => 3
  | '#' :: cs => 1 + countWhile (· != '\n') cs
  | cs => countWhile isSpace cs

def lineEndLength : List Char → Nat
  | '\n' :: _ => 1
  | '\r' :: '\n' :: _ => 2
  | _ => 0

def wordLength : List Char → Nat
  | [] => 0
  | c :: cs => if isWordStart c then 1 + countWhile isWordRest cs else 0

def opening? (c : Char) : Option Bracket := Bracket.all.find? fun b => b.opener == c
def closing? (c : Char) : Option Bracket := Bracket.all.find? fun b => b.closer == c

/-- The first sign in the order of trial that the text starts with. -/
def sign? (cs : List Char) : Option Sign := Sign.all.find? fun s => s.text.toList.isPrefixOf cs

theorem gapLength_le (cs : List Char) : gapLength cs ≤ cs.length := by
  unfold gapLength
  split
  · simp
  · simp
  · rename_i cs
    have := countWhile_le (· != '\n') cs
    simp; omega
  · exact countWhile_le isSpace _

theorem lineEndLength_le (cs : List Char) : lineEndLength cs ≤ cs.length := by
  unfold lineEndLength
  split <;> simp

theorem wordLength_le (cs : List Char) : wordLength cs ≤ cs.length := by
  unfold wordLength
  split
  · simp
  · rename_i c cs
    have := countWhile_le isWordRest cs
    split <;> simp; omega

theorem sign?_isPrefix {cs : List Char} {s : Sign} (h : sign? cs = some s) :
    s.text.toList <+: cs := by
  simpa using List.find?_some h

/-- The lexeme at the start of the text and its length. -/
def next? : List Char → Option (Lexeme × Nat)
  | [] => none
  | c :: rest =>
    let cs := c :: rest
    if 0 < gapLength cs then some (gap, gapLength cs)
    else if 0 < lineEndLength cs then some (lineEnd, lineEndLength cs)
    else match Quotation.length? cs with
      | some n => some (string, n)
      | none =>
        if Quotation.opens cs then some (unterminated, 1)
        else if 0 < Numeral.length cs then some (number, Numeral.length cs)
        else if 0 < wordLength cs then some (word, wordLength cs)
        else match opening? c, closing? c, sign? cs with
          | some b, _, _ => some (opening b, 1)
          | none, some b, _ => some (closing b, 1)
          | none, none, some s => some (sign s, s.text.length)
          | none, none, none => none

theorem next?_bounds {cs : List Char} {lexeme : Lexeme} {n : Nat}
    (h : next? cs = some (lexeme, n)) : 0 < n ∧ n ≤ cs.length := by
  cases cs with
  | nil => simp [next?] at h
  | cons c rest =>
    have hgap := gapLength_le (c :: rest)
    have hend := lineEndLength_le (c :: rest)
    have hnumber := Numeral.length_le (c :: rest)
    have hword := wordLength_le (c :: rest)
    simp only [next?] at h
    split at h
    · grind
    · split at h
      · grind
      · split at h
        · rename_i m hm
          have := Quotation.length?_bounds hm
          grind
        · split at h
          · grind
          · split at h
            · grind
            · split at h
              · grind
              · split at h
                · grind
                · grind
                · rename_i s _ _ hs
                  have hle := (sign?_isPrefix hs).length_le
                  have hpos := List.length_pos_iff.2 s.text_ne_empty
                  simp only [String.length_toList] at hle hpos
                  grind
                · simp at h

end Lexeme

end BuildTyping
