/-
DrawLang/Arity.lean

How many arguments a callable takes: at least `least`, and at most `most` if
that is bounded.
-/
import DrawLang.Number.Written

namespace DrawLang

/-- The accepted numbers of arguments. -/
structure Arity where
  least : Nat
  /-- Missing where any larger number is accepted. -/
  most : Option Nat
  deriving DecidableEq, Repr

namespace Arity

/-- Exactly `n` arguments. -/
def exactly (n : Nat) : Arity := ⟨n, some n⟩

/-- From `least` to `most` arguments. -/
def between (least most : Nat) : Arity := ⟨least, some most⟩

/-- No fewer than `least` arguments. -/
def atLeast (least : Nat) : Arity := ⟨least, none⟩

/-- Is this number of arguments accepted? -/
def accepts (a : Arity) (count : Nat) : Bool :=
  a.least ≤ count && a.most.all (count ≤ ·)

/-- How an arity is told: `2`, `2-3` or `at least 1`. -/
def display (a : Arity) : Text :=
  match a.most with
  | some most =>
    if most = a.least then Decimal.row most
    else Decimal.row a.least ++ '-' :: Decimal.row most
  | none => "at least ".toList ++ Decimal.row a.least

end Arity

end DrawLang
