/-
DrawLang/Number/Decimal.lean

Decimal fractions, read and written.  A decimal is `± digits · 10 ^ scale`
with natural digits and an integer scale; `ofText?` reads one from text,
`nearest` is the number closest to it, and `positional` and `scientific` are
its two written forms.

Reading accepts a sign, digits with an optional point among them, and an
optional exponent.  A decimal far outside the range of numbers is settled by
its size alone: it is rounded to infinity or to zero without its power of ten
ever being computed.
-/
import DrawLang.Text.Basic
import DrawLang.Number.Exact

namespace DrawLang

/-- The decimal fraction `± digits · 10 ^ scale`. -/
structure Decimal where
  negative : Bool
  digits : Nat
  scale : Int
  deriving DecidableEq, Repr

namespace Decimal

/-! ### Reading -/

/-- The value of a digit. -/
def digitValue (c : Char) : Nat := c.toNat - '0'.toNat

/-- The value of a row of digits. -/
def digitsValue (t : Text) : Nat := t.foldl (fun n c => 10 * n + digitValue c) 0

/-- Take an optional sign off a text; `true` says that it was a minus. -/
def sign : Text → Bool × Text
  | '-' :: t => (true, t)
  | '+' :: t => (false, t)
  | t => (false, t)

/-- The exponent at the end of a decimal: nothing, or an `e` with a signed row of digits. -/
def exponent? : Text → Option Int
  | [] => some 0
  | c :: t =>
    let (negative, digits) := sign t
    if (c = 'e' ∨ c = 'E') ∧ digits ≠ [] ∧ digits.all Char.isDigit then
      some (Number.signed negative (digitsValue digits))
    else none

/-- Read a decimal: sign, digits, point, digits, exponent; all optional, but
there must be a digit on one side of the point. -/
def ofText? (t : Text) : Option Decimal :=
  let (negative, t) := sign t
  let whole := t.takeWhile Char.isDigit
  let rest := t.dropWhile Char.isDigit
  let (fraction, rest) :=
    match rest with
    | '.' :: rest => (rest.takeWhile Char.isDigit, rest.dropWhile Char.isDigit)
    | rest => ([], rest)
  if whole = [] ∧ fraction = [] then none
  else
    (exponent? rest).map fun exponent =>
      ⟨negative, digitsValue (whole ++ fraction), exponent - fraction.length⟩

/-! ### The nearest number -/

/-- The number of decimal digits. -/
def size (n : Nat) : Nat := (Nat.toDigits 10 n).length

/-- The number closest to a decimal, without its sign.  From `10 ^ 310` on it
is infinite, and below `10 ^ (-330)` it is zero. -/
def nearestMagnitude (digits : Nat) (scale : Int) : Number :=
  let reach := size digits + scale
  if digits = 0 ∨ reach < -330 then 0
  else if 311 < reach then 1 / 0
  else if 0 ≤ scale then Float.ofScientific digits false scale.toNat
  else Float.ofScientific digits true (-scale).toNat

/-- The number closest to a decimal; zero keeps its sign. -/
def nearest (d : Decimal) : Number :=
  let n := nearestMagnitude d.digits d.scale
  if d.negative then -n else n

/-! ### Writing -/

/-- The minus of a negative decimal. -/
def minus (negative : Bool) : Text := if negative then ['-'] else []

/-- The row of digits of a natural number. -/
def row (n : Nat) : Text := Nat.toDigits 10 n

/-- The places before the point: `digits` is below `10 ^ places`, and no smaller power will do. -/
def places (d : Decimal) : Int := size d.digits + d.scale

/-- Written with a point and without an exponent; a decimal without fraction
is followed by `whole`. -/
def positional (d : Decimal) (whole : Text) : Text :=
  minus d.negative ++
    if 0 ≤ d.scale then row d.digits ++ List.replicate d.scale.toNat '0' ++ whole
    else if 0 < d.places then
      (row d.digits).take d.places.toNat ++ '.' :: (row d.digits).drop d.places.toNat
    else '0' :: '.' :: List.replicate (-d.places).toNat '0' ++ row d.digits

/-- Written with one digit before the point and an exponent that always has a sign. -/
def scientific (d : Decimal) : Text :=
  let exponent := d.places - 1
  minus d.negative ++ (row d.digits).take 1 ++
    (if size d.digits ≤ 1 then [] else '.' :: (row d.digits).drop 1) ++
    'e' :: (if exponent < 0 then '-' else '+') :: row exponent.natAbs

end Decimal

/-- The numbers that have names instead of digits. -/
def Number.named? (name : Text) : Option Number :=
  if name = "nan".toList then some (0 / 0)
  else if name = "inf".toList ∨ name = "infinity".toList then some (1 / 0)
  else none

/-- Read a number: a decimal, or the name of an infinity or of no number at
all, in any case and with an optional sign. -/
def Number.ofText? (t : Text) : Option Number :=
  let (negative, name) := Decimal.sign t
  match Number.named? (name.map Char.toLower) with
  | some n => some (if negative then -n else n)
  | none => (Decimal.ofText? t).map Decimal.nearest

end DrawLang
