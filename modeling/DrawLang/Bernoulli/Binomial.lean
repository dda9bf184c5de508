/-
DrawLang/Bernoulli/Binomial.lean

Binomial coefficients in unsigned 64-bit words.  The coefficient is built up
as `C(n, 0), C(n, 1), …` along the shorter side of the row; going from one to
the next multiplies by what is left of `n` and divides by the number of the
step, and the division is exact.  Where a product does not fit into a word
there is no answer.
-/

namespace DrawLang.Binomial

/-- The number of unsigned 64-bit words. -/
def wordSize : Nat := Nat.pow 2 64

/-- Go on from `value = C(n, i)` for a number of steps. -/
def climb? (n : Nat) : (steps i value : Nat) → Option Nat
  | 0, _, value => some value
  | steps + 1, i, value =>
    if value * (n - i) < wordSize then climb? n steps (i + 1) (value * (n - i) / (i + 1))
    else none

/-- The number of ways to choose `k` things out of `n`, if it can be computed in words. -/
def choose? (k n : Nat) : Option Nat :=
  if n < k then some 0 else climb? n (min k (n - k)) 0 1

end DrawLang.Binomial
