/-
DrawLang/Shape.lean

Vectors and shapes.  A shape is a record of what a program asked for: a
square, a parallelogram, or two shapes with the second placed at an anchor of
the first.  Every shape carries a rotation.  What it looks like is up to the
host; here it is only shown, as text or as JSON, and compared.

Numbers are compared as numbers: the two zeros are equal, and a shape with an
undefined number in it is not equal to itself.
-/
import DrawLang.Color
import DrawLang.Json
import DrawLang.Number.Written

namespace DrawLang

/-- A displacement in the plane. -/
structure Vector where
  x : Number
  y : Number
  deriving DecidableEq

namespace Vector

/-- No displacement. -/
def zero : Vector := ⟨0, 0⟩

/-- Are both coordinates equal as numbers? -/
def same (v w : Vector) : Bool := v.x == w.x && v.y == w.y

/-- The text `(x:1 y:2)`. -/
def display (v : Vector) : Text :=
  "(x:".toList ++ v.x.display ++ " y:".toList ++ v.y.display ++ [')']

end Vector

/-- A number in a JSON document; only finite numbers have a form there. -/
def Json.ofNumber (n : Number) : Json :=
  match n.json? with
  | some digits => .number digits
  | none => .null

/-- A vector in a JSON document. -/
def Vector.json (v : Vector) : Json :=
  .object [("x".toList, .ofNumber v.x), ("y".toList, .ofNumber v.y)]

/-- A shape as it was asked for. -/
inductive Shape where
  | square (size : Number) (color : Color) (rotation : Number)
  | parallelogram (base height offset : Number) (color : Color) (rotation : Number)
  /-- The second shape placed relative to the first, and the pair rotated. -/
  | composite (first second : Shape) (anchor : Vector) (rotation : Number)
  deriving DecidableEq

namespace Shape

/-- The name of the kind of shape. -/
def name : Shape → Text
  | square .. => "square".toList
  | parallelogram .. => "parallelogram".toList
  | composite .. => "composite".toList

/-- The rotation of a shape. -/
def rotation : Shape → Number
  | square _ _ r => r
  | parallelogram _ _ _ _ r => r
  | composite _ _ _ r => r

/-- Are two shapes of one kind, with equal parts? -/
def same : Shape → Shape → Bool
  | square s c r, square s' c' r' => s == s' && c = c' && r == r'
  | parallelogram b h o c r, parallelogram b' h' o' c' r' =>
    b == b' && h == h' && o == o' && c = c' && r == r'
  | composite p q v r, composite p' q' v' r' => same p p' && same q q' && v.same v' && r == r'
  | _, _ => false

/-- The text of a shape reads like the call that makes it. -/
def display : Shape → Text
  | square size color rotation =>
    "square(".toList ++ size.display ++ ' ' :: color.name ++ ' ' :: rotation.display ++ [')']
  | parallelogram base height offset color rotation =>
    "parallelogram(".toList ++ base.display ++ ' ' :: height.display ++ ' ' :: offset.display ++
      ' ' :: color.name ++ ' ' :: rotation.display ++ [')']
  | composite first second anchor rotation =>
    "merge(".toList ++ first.display ++ ' ' :: second.display ++ ' ' :: anchor.display ++
      ' ' :: rotation.display ++ [')']

/-- A shape in a JSON document: its kind under `name`, then its parts. -/
def json : Shape → Json
  | square size color rotation =>
    .object [
      ("name".toList, .string "square".toList),
      ("size".toList, .ofNumber size),
      ("color".toList, .string color.name),
      ("rotation".toList, .ofNumber rotation)]
  | parallelogram base height offset color rotation =>
    .object [
      ("name".toList, .string "parallelogram".toList),
      ("base".toList, .ofNumber base),
      ("height".toList, .ofNumber height),
      ("offset".toList, .ofNumber offset),
      ("color".toList, .string color.name),
      ("rotation".toList, .ofNumber rotation)]
  | composite first second anchor rotation =>
    .object [
      ("name".toList, .string "composite".toList),
      ("shape1".toList, first.json),
      ("shape2".toList, second.json),
      ("anchor".toList, anchor.json),
      ("rotation".toList, .ofNumber rotation)]

end Shape

end DrawLang
