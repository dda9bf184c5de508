/-
DrawLang/Bernoulli/Table.lean

Bernoulli numbers,

    B(0) = 1,   B(n) = -1/(n+1) · Σ_{k<n} C(n+1, k) · B(k),

computed over a table.  A table has a slot for each number up to some index;
`entry n` answers from the table, and computes and records the numbers that
are missing.  What has been recorded stays recorded even where a later number
is refused.
-/
import DrawLang.Bernoulli.Binomial
import DrawLang.Bernoulli.Fraction

namespace DrawLang.Bernoulli

/-- A slot for each number, filled or not. -/
abbrev Table := List (Option Fraction)

/-- A table of empty slots. -/
def blank (size : Nat) : Table := List.replicate size none

/-- A computation that may fill slots, and keeps them where it is refused. -/
abbrev Filling (α : Type) := EStateM Refusal Table α

/-- A result that does not touch the table. -/
def pureResult {α : Type} : Except Refusal α → Filling α
  | .ok a => pure a
  | .error r => throw r

/-- Add `C(n+1, k) · b` to a sum. -/
def addTerm (n k : Nat) (b sum : Fraction) : Except Refusal Fraction :=
  match Binomial.choose? k (n + 1) with
  | none => .error .tooLarge
  | some c => do Fraction.add sum ⟨← Fraction.word (b.numerator * c), b.denominator⟩

/-- The sum over the last `todo` of the numbers below `n`, given how to get those numbers. -/
def sumTerms (n : Nat) (entry : (k : Nat) → k < n → Filling Fraction) :
    (todo : Nat) → todo ≤ n → Fraction → Filling Fraction
  | 0, _, sum => pure sum
  | todo + 1, h, sum => do
    let b ← entry (n - (todo + 1)) (by omega)
    let sum ← pureResult (addTerm n (n - (todo + 1)) b sum)
    sumTerms n entry todo (by omega) sum

/-- The quotient `- sum / (n + 1)` in lowest terms. -/
def scaled (n : Nat) (sum : Fraction) : Except Refusal Fraction := do
  let num ← Fraction.word (-sum.numerator)
  let den ← Fraction.word (sum.denominator * (n + 1))
  Fraction.reduce num den

/-- Record a number in its slot. -/
def record (n : Nat) (b : Fraction) : Filling Fraction := do
  modify (·.set n (some b))
  return b

/-- The number of index `n`, by the table as far as it is filled. -/
def entry (n : Nat) : Filling Fraction := do
  match (← get)[n]? with
  | none => throw (.crash .shortTable)
  | some (some b) => return b
  | some none =>
    if n = 0 then record n ⟨1, 1⟩
    else
      let sum ← sumTerms n (fun k _ => entry k) n (Nat.le_refl n) ⟨0, 1⟩
      record n (← pureResult (scaled n sum))
termination_by n

/-- The answer and the table that a computation leaves. -/
def run {α : Type} (f : Filling α) (table : Table) : Except Refusal α × Table :=
  match f.run table with
  | .ok a table => (.ok a, table)
  | .error r table => (.error r, table)

/-- The number of index `n`. -/
def number (n : Nat) : Except Refusal Fraction := (run (entry n) (blank (n + 1))).1

/-- The numbers of index `0` to `n`, over one table. -/
def numbers (n : Nat) : Except Refusal (List Fraction) :=
  (run ((List.range (n + 1)).mapM entry) (blank (n + 1))).1

/-- The texts of the numbers that start with index `i`, over a table that has
a slot less than that and is enlarged by one for each of them. -/
def textsFrom : (count i : Nat) → Filling (List Text)
  | 0, _ => pure []
  | count + 1, i => do
    modify (· ++ [none])
    let b ← entry i
    let texts ← textsFrom count (i + 1)
    return b.text :: texts

/-- The texts of the first `count` numbers from index two on. -/
def texts (count : Nat) : Except Refusal (List Text) := (run (textsFrom count 2) (blank 2)).1

end DrawLang.Bernoulli
