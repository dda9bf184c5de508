/-
DrawLang/Number/Shortest.lean

The shortest decimal of a number.  The reals that round to a binary64 number
form an interval around it, which holds its ends exactly if the mantissa is
even.  Among the decimals in that interval those with the coarsest unit
`10 ^ k` have the fewest digits, and among those the one nearest to the number
is taken.

If any multiple of a unit lies in the interval, so does one of the two
neighbours of the number among the multiples.  So it is enough to walk from
coarse units to fine ones and to look at two candidates on each grid.  The two
can be equally near; `Tie` says which one is taken then.
-/
import DrawLang.Number.Decimal

namespace DrawLang

/-- What to do when two decimals are equally near. -/
inductive Tie where
  /-- Take the larger one. -/
  | up
  /-- Take the one whose last digit is even. -/
  | even
  deriving DecidableEq, Repr

namespace Number

/-- How a grid lies around a number: the multiple of its unit just below, the
distance to it, the size of the unit, and the half widths of the interval of
reals that round to the number, all but the first in one common unit. -/
structure Grid where
  below : Nat
  distance : Nat
  unit : Nat
  lowerReach : Nat
  upperReach : Nat

/-- The grid of the multiples of `10 ^ scale` around `mantissa · 2 ^ exponent`.
The interval reaches half a unit of the last place to either side, but only a
quarter downwards where the spacing of the numbers changes. -/
def grid (mantissa : Nat) (exponent : Int) (scale : Int) : Grid :=
  let quarter := Nat.pow 2 (exponent - 2).toNat * Nat.pow 10 (-scale).toNat
  let unit := Nat.pow 2 (2 - exponent).toNat * Nat.pow 10 scale.toNat
  let value := 4 * mantissa * quarter
  { below := value / unit
    distance := value % unit
    unit := unit
    lowerReach := (if mantissa = Nat.pow 2 52 ∧ -1074 < exponent then 1 else 2) * quarter
    upperReach := 2 * quarter }

/-- Is a candidate at this distance inside the interval? -/
def reaches (closed : Bool) (distance reach : Nat) : Bool :=
  distance < reach || (closed && distance = reach)

/-- The multiple of the unit that is nearest to the number among those in its interval. -/
def Grid.hit? (tie : Tie) (closed : Bool) (g : Grid) : Option Nat :=
  let above := g.unit - g.distance
  let low := reaches closed g.distance g.lowerReach
  let high := reaches closed above g.upperReach
  if low ∧ high then
    if g.distance < above then some g.below
    else if above < g.distance then some (g.below + 1)
    else
      match tie with
      | .up => some (g.below + 1)
      | .even => some (if g.below % 2 = 0 then g.below else g.below + 1)
  else if low then some g.below
  else if high then some (g.below + 1)
  else none

/-- Walk from the unit `10 ^ scale` to finer ones until one has a hit; the
last one takes the neighbour below. -/
def firstHit (tie : Tie) (mantissa : Nat) (exponent : Int) : Nat → Int → Nat × Int
  | 0, scale => ((grid mantissa exponent scale).below, scale)
  | steps + 1, scale =>
    match (grid mantissa exponent scale).hit? tie (mantissa % 2 = 0) with
    | some digits => (digits, scale)
    | none => firstHit tie mantissa exponent steps (scale - 1)

/-- Move the zeros at the end of the digits into the scale. -/
def trimmed : Nat → Nat → Int → Nat × Int
  | 0, digits, scale => (digits, scale)
  | steps + 1, digits, scale =>
    if digits ≠ 0 ∧ digits % 10 = 0 then trimmed steps (digits / 10) (scale + 1)
    else (digits, scale)

/-- A power of ten above `mantissa · 2 ^ exponent`; the logarithm of two is below 0.30103. -/
def roof (mantissa : Nat) (exponent : Int) : Int :=
  (mantissa.log2 + 1 + exponent) * 30103 / 100000 + 1

/-- The number of grids from the roof down on which a hit is certain: no
number needs more than seventeen digits. -/
def depth : Nat := 24

/-- The shortest decimal that rounds to `± mantissa · 2 ^ exponent`. -/
def shortest (tie : Tie) (negative : Bool) (mantissa : Nat) (exponent : Int) : Decimal :=
  if mantissa = 0 then ⟨negative, 0, 0⟩
  else
    let (digits, scale) := firstHit tie mantissa exponent depth (roof mantissa exponent)
    let (digits, scale) := trimmed depth digits scale
    ⟨negative, digits, scale⟩

end Number

end DrawLang
