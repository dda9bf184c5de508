/-
DrawLang/Color.lean

The drawing palette.  A color is known by its name; `named?` finds the color
of a name and `named?_name` says that it finds each of them.
-/
import DrawLang.Text.Basic

namespace DrawLang

/-- The nine colors of the palette. -/
inductive Color where
  | green | blue | yellow | red | purple | grey | black | white | orange
  deriving DecidableEq, Repr

namespace Color

/-- All colors. -/
def all : List Color := [green, blue, yellow, red, purple, grey, black, white, orange]

/-- The name of a color, which is also how it is written in programs. -/
def name : Color → Text
  | green => "green".toList
  | blue => "blue".toList
  | yellow => "yellow".toList
  | red => "red".toList
  | purple => "purple".toList
  | grey => "grey".toList
  | black => "black".toList
  | white => "white".toList
  | orange => "orange".toList

/-- The color of a name. -/
def named? (t : Text) : Option Color := all.find? fun c => c.name = t

theorem named?_name (c : Color) : named? c.name = some c := by
  cases c <;> rfl

theorem mem_all (c : Color) : c ∈ all := by
  cases c <;> decide

end Color

end DrawLang
