/-
DrawLang/Number/Written.lean

The three written forms of a number.

* `display` is what a reader sees: whole numbers below `2 ^ 63` without a
  point (and zero without a sign), every other number by its shortest decimal,
  never with an exponent; a tie between two shortest decimals goes up.
* `json` keeps a point or an exponent in every number, is positional from
  `10 ^ (-5)` up to `10 ^ 16`, and sends a tie to the even digit; it exists
  for finite numbers only.
* `literal` is the value column of a token: a whole number is squeezed into
  the range of signed 64-bit words and always ends in `.0`.
-/
import DrawLang.Number.Shortest

namespace DrawLang.Number

/-- The row of digits of an integer, with its minus. -/
def integerText (i : Int) : Text := Decimal.minus (i < 0) ++ Decimal.row i.natAbs

/-- Written by the shortest decimal, without an exponent. -/
def plain (n : Number) : Text :=
  match n.exact with
  | .nan => "NaN".toList
  | .infinite negative => Decimal.minus negative ++ "inf".toList
  | .finite negative mantissa exponent => (shortest .up negative mantissa exponent).positional []

/-- Written for a reader. -/
def display (n : Number) : Text :=
  match n.whole? with
  | some i => if i.natAbs < wordBound then integerText i else n.plain
  | none => n.plain

/-- Written for a JSON document, if the number is finite. -/
def json? (n : Number) : Option Text :=
  match n.exact with
  | .finite negative mantissa exponent =>
    let d := shortest .even negative mantissa exponent
    if mantissa = 0 ∨ (-5 < d.places ∧ d.places ≤ 16) then some (d.positional ".0".toList)
    else some d.scientific
  | _ => none

/-- Written as the value of a token. -/
def literal (n : Number) : Text :=
  match n.whole? with
  | some i => integerText (clamped i) ++ ".0".toList
  | none => n.plain

end DrawLang.Number
