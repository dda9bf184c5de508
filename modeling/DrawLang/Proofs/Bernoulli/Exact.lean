/-
DrawLang/Proofs/Bernoulli/Exact.lean

The arithmetic of fractions is exact or refused for the size of its numbers.
The only words that could make it crash are the least word and a denominator of
minus one, and they never meet: all denominators are positive, so that reducing to
lowest terms always has a positive divisor to divide by (`gcd_eq`,
`exists_reduce`), and a sum that is not too large is the sum
(`only_add`).  The same holds of binomial coefficients, whose divisions leave no
remainder (`Binomial.eq_choose_of_choose?`).
-/
import Mathlib.Data.Int.GCD
import Mathlib.Data.Nat.Choose.Basic
import Mathlib.Algebra.Order.Ring.Int
import Mathlib.Data.Rat.Cast.Defs
import Mathlib.Tactic.Ring
import DrawLang.Bernoulli.Table

namespace DrawLang

variable {α γ : Type}

/-- The computation has a result with a property, or its numbers are too large. -/
def Refusal.Only (Q : α → Prop) : Except Refusal α → Prop
  | .ok a => Q a
  | .error r => r = .tooLarge

open Refusal

theorem Refusal.only_bind {P : α → Prop} {Q : γ → Prop} {x : Except Refusal α}
    {f : α → Except Refusal γ} (hx : Only P x) (hf : ∀ a, P a → Only Q (f a)) :
    Only Q (x >>= f) := by
  rcases x with r | a
  · exact hx
  · exact hf a hx

theorem Refusal.Only.imp {P Q : α → Prop} {x : Except Refusal α} (hx : Only P x)
    (h : ∀ a, P a → Q a) : Only Q x := by
  rcases x with r | a
  · exact hx
  · exact h a hx

/-! ### Binomial coefficients -/

namespace Binomial

/-- What is left after a step is divided without remainder. -/
theorem choose_step (n i : Nat) : n.choose i * (n - i) / (i + 1) = n.choose (i + 1) := by
  rw [← Nat.choose_succ_right_eq, Nat.mul_div_cancel _ i.succ_pos]

theorem climb?_choose {n steps i c : Nat} (h : climb? n steps i (n.choose i) = some c) :
    c = n.choose (i + steps) := by
  induction steps generalizing i with
  | zero => exact (Option.some.inj h).symm
  | succ steps ih =>
    rw [climb?, choose_step] at h
    split at h
    · rw [ih h, Nat.add_right_comm, Nat.add_assoc]
    · cases h

/-- **A binomial coefficient that is computed is the binomial coefficient.** -/
theorem eq_choose_of_choose? {k n c : Nat} (h : choose? k n = some c) : c = n.choose k := by
  unfold choose? at h
  split at h
  case isTrue hlt => rw [Nat.choose_eq_zero_of_lt hlt, ← Option.some.inj h]
  case isFalse hle =>
    rw [← Nat.choose_zero_right n] at h
    rw [climb?_choose h, Nat.zero_add]
    rcases Nat.le_total k (n - k) with hk | hk
    · rw [Nat.min_eq_left hk]
    · rw [Nat.min_eq_right hk, Nat.choose_symm (Nat.not_lt.1 hle)]

end Binomial

/-! ### Fractions -/

namespace Fraction

/-- The rational number that a fraction tells. -/
def value (f : Fraction) : ℚ := f.numerator / f.denominator

/-- Lowest terms of words, with a positive denominator. -/
structure Reduced (f : Fraction) : Prop where
  positive : 0 < f.denominator
  coprime : Int.gcd f.numerator f.denominator = 1
  numerator_word : -bound ≤ f.numerator ∧ f.numerator < bound
  denominator_lt : f.denominator < bound

theorem only_word (i : Int) : Only (fun w => w = i ∧ -bound ≤ w ∧ w < bound) (word i) := by
  unfold word
  split
  case isTrue h => exact ⟨rfl, h⟩
  case isFalse => rfl

/-- Division with remainder finds the greatest common divisor, without a crash if
the least word can only come first, and then in front of a positive number. -/
theorem gcd_eq (a b : Int) (ha : a = -bound → 0 < b) (hb : -bound < b ∧ b < bound) :
    gcd a b = .ok (Int.gcd a b) := by
  fun_induction gcd a b with
  | case1 => exact absurd (ha rfl) (Int.lt_irrefl 0)
  | case2 a _ => rw [Int.gcd_zero_right]
  | case3 a b _ h => exact absurd (ha h.1) (by omega)
  | case4 a b hne _ ih =>
    have hlt : (a.tmod b).natAbs < b.natAbs := by
      rw [Int.natAbs_tmod]
      exact Nat.mod_lt _ (Int.natAbs_pos.2 hne)
    rw [ih (fun h => by omega) (by omega)]
    congr 2
    rw [Int.gcd, Int.gcd, Int.natAbs_tmod, Nat.gcd_comm b.natAbs, ← Nat.gcd_rec,
      Nat.gcd_comm]

/-- What becomes a word when it is enlarged is one. -/
theorem word_of_mul {p g : Int} (hg : 0 < g) (h : -bound ≤ p * g ∧ p * g < bound) :
    -bound ≤ p ∧ p < bound := by
  have hbound : 0 < bound := by decide
  rcases Int.le_total 0 p with hp | hp
  · have hle : p ≤ p * g := by simpa using Int.mul_le_mul_of_nonneg_left hg hp
    omega
  · have hle : p * g ≤ p := by simpa using Int.mul_le_mul_of_nonpos_left hp hg
    omega

/-- **A fraction of words with a positive denominator is reduced** to lowest terms of the
same value, and never refused. -/
theorem exists_reduce {num den : Int} (hnum : -bound ≤ num ∧ num < bound) (hpos : 0 < den)
    (hlt : den < bound) :
    ∃ f : Fraction, reduce num den = .ok f ∧ f.Reduced ∧ f.value = num / den := by
  have hg : 0 < Int.gcd num den := Int.gcd_pos_of_ne_zero_right _ (Int.ne_of_gt hpos)
  obtain ⟨g, p, q, hg0, hcoprime, rfl, rfl⟩ := Int.exists_gcd_one' hg
  have hq : 0 < q := Int.pos_of_mul_pos_left hpos (Int.natCast_pos.2 hg0)
  have hgpos : (0 : Int) < g := Int.natCast_pos.2 hg0
  have hbound : 0 < bound := by decide
  have hgcd : Int.gcd (p * g) (q * g) = g := by
    rw [Int.gcd_mul_right, hcoprime, Nat.one_mul, Int.natAbs_natCast]
  refine ⟨⟨p, q⟩, ?_, ⟨hq, hcoprime, word_of_mul hgpos hnum, ?_⟩, ?_⟩
  · rw [reduce, gcd_eq _ _ (fun _ => hpos) ⟨by omega, hlt⟩, hgcd]
    show (if _ then _ else if _ then _ else _) = _
    rw [if_neg hgpos.ne', Int.mul_tdiv_cancel _ hgpos.ne', Int.mul_tdiv_cancel _ hgpos.ne',
      if_neg (Int.not_lt.2 (Int.le_of_lt hq))]
    rfl
  · exact (word_of_mul hgpos ⟨by omega, hlt⟩).2
  · have hgq : (g : ℚ) ≠ 0 := Nat.cast_ne_zero.2 (Nat.ne_of_gt hg0)
    rw [value, Int.cast_mul, Int.cast_mul, Int.cast_natCast, mul_div_mul_right _ _ hgq]

/-- **A sum that is not refused is the sum**, in lowest terms. -/
theorem only_add {a b : Fraction} (ha : 0 < a.denominator) (hb : 0 < b.denominator) :
    Only (fun f => f.Reduced ∧ f.value = a.value + b.value) (add a b) := by
  refine only_bind (only_word _) fun left hleft => only_bind (only_word _) fun right hright => ?_
  refine only_bind (only_word _) fun num hnum => only_bind (only_word _) fun den hden => ?_
  obtain ⟨rfl, -⟩ := hleft
  obtain ⟨rfl, -⟩ := hright
  obtain ⟨rfl, hnum⟩ := hnum
  obtain ⟨rfl, -, hlt⟩ := hden
  obtain ⟨f, hf, hreduced, hvalue⟩ := exists_reduce hnum (Int.mul_pos ha hb) hlt
  rw [hf]
  refine ⟨hreduced, hvalue.trans ?_⟩
  have ha0 : (a.denominator : ℚ) ≠ 0 := Int.cast_ne_zero.2 ha.ne'
  have hb0 : (b.denominator : ℚ) ≠ 0 := Int.cast_ne_zero.2 hb.ne'
  rw [value, value, div_add_div _ _ ha0 hb0]
  push_cast
  ring

end Fraction

/-! ### Terms and quotients -/

namespace Bernoulli

open Fraction

/-- A term `C(n+1, k) · b` is added. -/
theorem only_addTerm (n k : Nat) {b sum : Fraction} (hb : b.Reduced) (hsum : sum.Reduced) :
    Only (fun f => f.Reduced ∧ f.value = sum.value + (n + 1).choose k * b.value)
      (addTerm n k b sum) := by
  unfold addTerm
  split
  · rfl
  · rename_i c hc
    obtain rfl := Binomial.eq_choose_of_choose? hc
    refine only_bind (only_word _) fun num hnum => ?_
    obtain ⟨rfl, -⟩ := hnum
    let term : Fraction := ⟨b.numerator * (n + 1).choose k, b.denominator⟩
    have hterm : term.value = (n + 1).choose k * b.value := by
      rw [value, value, Int.cast_mul, Int.cast_natCast]
      ring
    exact hterm ▸ only_add hsum.positive (show 0 < term.denominator from hb.positive)

/-- A sum is divided by `-(n + 1)`. -/
theorem only_scaled (n : Nat) {sum : Fraction} (hsum : sum.Reduced) :
    Only (fun f => f.Reduced ∧ f.value = -sum.value / (n + 1)) (scaled n sum) := by
  refine only_bind (only_word _) fun num hnum => only_bind (only_word _) fun den hden => ?_
  obtain ⟨rfl, hnum⟩ := hnum
  obtain ⟨rfl, -, hlt⟩ := hden
  obtain ⟨f, hf, hreduced, hvalue⟩ :=
    exists_reduce hnum (Int.mul_pos hsum.positive (by omega : (0 : Int) < n + 1)) hlt
  rw [hf]
  refine ⟨hreduced, hvalue.trans ?_⟩
  rw [value, ← neg_div, div_div]
  push_cast
  rfl

end Bernoulli

end DrawLang
