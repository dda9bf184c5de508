/-
DrawLang/Bernoulli/Fraction.lean

Fractions of signed 128-bit words, and their exact arithmetic.  Every result is
either exact or refused: a product, a sum or a negation that does not fit is
too large, and zero over zero has no divisor to be reduced by.  Two steps of the
reduction to lowest terms have no answer at all for the least word, its remainder
by minus one and its absolute value; they count as a crash.
-/
import DrawLang.Fault

namespace DrawLang

/-- A numerator over a denominator. -/
structure Fraction where
  numerator : Int
  denominator : Int
  deriving DecidableEq, Repr

/-- Why a fraction was not computed. -/
inductive Refusal where
  /-- A number does not fit into a word. -/
  | tooLarge
  /-- Numerator and denominator are both zero. -/
  | noDivisor
  | crash (c : Crash)
  deriving DecidableEq, Repr

namespace Fraction

/-- The least power of two above all signed 128-bit words. -/
def bound : Int := (Nat.pow 2 127 : Nat)

/-- A number, if it is a signed 128-bit word. -/
def word (i : Int) : Except Refusal Int :=
  if -bound ≤ i ∧ i < bound then .ok i else .error .tooLarge

/-- The greatest common divisor of two words, by division with remainder. -/
def gcd (a b : Int) : Except Refusal Int :=
  if b = 0 then
    if a = -bound then .error (.crash .overflow) else .ok a.natAbs
  else if a = -bound ∧ b = -1 then .error (.crash .overflow)
  else gcd b (a.tmod b)
termination_by b.natAbs
decreasing_by
  rw [Int.natAbs_tmod]
  exact Nat.mod_lt _ (Int.natAbs_pos.2 ‹_›)

/-- Lowest terms with a positive denominator. -/
def reduce (numerator denominator : Int) : Except Refusal Fraction := do
  let g ← gcd numerator denominator
  if g = 0 then throw .noDivisor
  let num := numerator.tdiv g
  let den := denominator.tdiv g
  if den < 0 then return ⟨← word (-num), ← word (-den)⟩ else return ⟨num, den⟩

/-- The sum in lowest terms. -/
def add (a b : Fraction) : Except Refusal Fraction := do
  let left ← word (a.numerator * b.denominator)
  let right ← word (b.numerator * a.denominator)
  let num ← word (left + right)
  let den ← word (a.denominator * b.denominator)
  reduce num den

/-- A fraction as text; a zero is told without its denominator. -/
def text (f : Fraction) : Text :=
  if f.numerator = 0 then ['0']
  else Number.integerText f.numerator ++ '/' :: Number.integerText f.denominator

end Fraction

end DrawLang
