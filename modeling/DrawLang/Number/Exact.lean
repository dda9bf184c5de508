/-
DrawLang/Number/Exact.lean

What a number denotes.  Numbers are binary64 floating-point numbers; `exact`
takes the sixty-four bits apart into sign, mantissa and exponent, so that
everything the language asks of a number besides adding, multiplying and
comparing is plain arithmetic on naturals and integers:

* `whole?` is the integer a number equals, if it equals one;
* `clamped` squeezes an integer into the range of signed 64-bit words.
-/

namespace DrawLang

/-- The numbers of the language. -/
abbrev Number := Float

namespace Number

/-- The content of a number; a finite one is `± mantissa · 2 ^ exponent`. -/
inductive Exact where
  | nan
  | infinite (negative : Bool)
  | finite (negative : Bool) (mantissa : Nat) (exponent : Int)
  deriving DecidableEq, Repr

/-- The content of a number, read off its sign bit, its eleven exponent bits
and its fifty-two fraction bits. -/
def exact (n : Number) : Exact :=
  let word : Nat := n.toBits.toNat
  let negative : Bool := word / Nat.pow 2 63 = 1
  let scale : Nat := word / Nat.pow 2 52 % Nat.pow 2 11
  let fraction : Nat := word % Nat.pow 2 52
  if scale = Nat.pow 2 11 - 1 then
    if fraction = 0 then .infinite negative else .nan
  else if scale = 0 then .finite negative fraction (-1074)
  else .finite negative (Nat.pow 2 52 + fraction) ((scale : Int) - 1075)

/-- The integer of the given sign and size. -/
def signed (negative : Bool) (size : Nat) : Int := if negative then -(size : Int) else size

/-- The integer that a number equals, if there is one. -/
def Exact.whole? : Exact → Option Int
  | .finite negative mantissa exponent =>
    if 0 ≤ exponent then some (signed negative (mantissa * Nat.pow 2 exponent.toNat))
    else if mantissa % Nat.pow 2 (-exponent).toNat = 0 then
      some (signed negative (mantissa / Nat.pow 2 (-exponent).toNat))
    else none
  | _ => none

/-- The integer that a number equals, if there is one. -/
def whole? (n : Number) : Option Int := n.exact.whole?

/-- The largest power of two that no signed 64-bit word reaches. -/
def wordBound : Int := (Nat.pow 2 63 : Nat)

/-- The signed 64-bit word closest to an integer. -/
def clamped (i : Int) : Int := max (-wordBound) (min i (wordBound - 1))

theorem wordBound_pos : 0 < wordBound := by decide

theorem clamped_eq_self {i : Int} (h₁ : -wordBound ≤ i) (h₂ : i < wordBound) : clamped i = i := by
  unfold clamped
  omega

theorem neg_wordBound_le_clamped (i : Int) : -wordBound ≤ clamped i := by
  unfold clamped
  omega

theorem clamped_lt_wordBound (i : Int) : clamped i < wordBound := by
  have := wordBound_pos
  unfold clamped
  omega

end Number

end DrawLang
