/-
DrawLang/Text/Position.lean

Lines and columns.  The position of an offset is told by the text up to and
*including* the character there: its line is one more than the number of line
ends in that text, its column the number of characters behind the last of
them, and at least one.  A line ends at a line feed, at a carriage return, or
at the two together, which count once.

An offset past the end stands for the end.  An offset inside a character has
no position.
-/
import DrawLang.Text.Basic

namespace DrawLang

/-- A place as a reader counts it; both numbers start at one. -/
structure Position where
  line : Nat
  column : Nat
  /-- The last character up to there, if there is any. -/
  last : Text
  deriving DecidableEq, Repr

namespace Text

/-- The text up to and including the character at byte `n`, all of it if `n`
is not before its end, and `none` if `n` is inside a character. -/
def through? : Nat → Text → Option Text
  | _, [] => some []
  | 0, c :: _ => some [c]
  | n + 1, c :: t =>
    if c.utf8Size ≤ n + 1 then (through? (n + 1 - c.utf8Size) t).map (c :: ·) else none

/-- The number of line ends; a carriage return before a line feed is part of it. -/
def lineEnds : Text → Nat
  | [] => 0
  | c :: t =>
    (if c = '\n' ∨ (c = '\r' ∧ t.head? ≠ some '\n') then 1 else 0) + lineEnds t

/-- Neither a line feed nor a carriage return. -/
def isInLine (c : Char) : Bool := c ≠ '\n' && c ≠ '\r'

/-- What follows the last line end. -/
def lastLine (t : Text) : Text := (t.reverse.takeWhile isInLine).reverse

/-- The last character, as a text of its own. -/
def lastCharacter (t : Text) : Text := t.getLast?.toList

/-- The position of the byte offset `n`, unless it is inside a character. -/
def position? (t : Text) (n : Nat) : Option Position :=
  (through? n t).map fun seen =>
    ⟨1 + lineEnds seen, max 1 (lastLine seen).length, lastCharacter seen⟩

end Text

end DrawLang
