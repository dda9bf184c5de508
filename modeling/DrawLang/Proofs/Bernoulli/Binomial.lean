/-
DrawLang/Proofs/Bernoulli/Binomial.lean

Which binomial coefficients can be computed in words.  The products along a row grow up to its
middle (`product_le`), so that all of them fit if the last one does, and a coefficient is
refused for the size of that product (`climb?_eq`).  On the way the value is the coefficient of
the step, nothing wraps and nothing is left of a division (`Passes.eq_choose`,
`Passes.safe`).

Main statement: `coefficients_are_exact_or_refused`.
-/
import Mathlib.Data.Nat.Factorial.Basic
import DrawLang.Proofs.Bernoulli.Exact

namespace DrawLang.Binomial

variable {n last steps i j value : Nat}

/-! ### Products -/

/-- What comes out of a step before it is divided is the next coefficient times its number. -/
theorem product_eq (n i : Nat) : n.choose i * (n - i) = (i + 1) * n.choose (i + 1) := by
  rw [← Nat.choose_succ_right_eq, Nat.mul_comm]

/-- **The products of a row grow up to its middle.** -/
theorem product_le (hij : i ≤ j) (hj : 2 * j ≤ n) : i * n.choose i ≤ j * n.choose j := by
  induction hij with
  | refl => exact Nat.le_refl _
  | @step j hij ih =>
    have hleft : j ≤ n - j := by omega
    calc i * n.choose i ≤ j * n.choose j := ih (by omega)
      _ ≤ (n - j) * n.choose j := Nat.mul_le_mul_right _ hleft
      _ = (j + 1) * n.choose (j + 1) := by rw [Nat.mul_comm, product_eq]

/-- The rest of a climb has an answer just if its last product fits. -/
theorem climb?_eq (hrow : 2 * (i + steps) ≤ n) (hfits : i * n.choose i < wordSize) :
    climb? n steps i (n.choose i) =
      if (i + steps) * n.choose (i + steps) < wordSize then some (n.choose (i + steps))
      else none := by
  induction steps generalizing i with
  | zero => rw [climb?, Nat.add_zero, if_pos hfits]
  | succ steps ih =>
    have hlast : i + (steps + 1) = i + 1 + steps := by omega
    rw [hlast] at hrow ⊢
    rw [climb?, choose_step, product_eq]
    split
    case isTrue hnext => exact ih hrow hnext
    case isFalse hnext =>
      have hgrow := product_le (Nat.le_add_right (i + 1) steps) hrow
      rw [if_neg (Nat.not_lt.2 ((Nat.not_lt.1 hnext).trans hgrow))]

/-! ### Steps -/

/-- The climb of `last` steps comes to step `i` with this value. -/
inductive Passes (n last : Nat) : (i value : Nat) → Prop
  | start : Passes n last 0 1
  | step {i value : Nat} (h : Passes n last i value) (hlt : i < last)
    (hfits : value * (n - i) < wordSize) : Passes n last (i + 1) (value * (n - i) / (i + 1))

/-- A step in words is what it is without them: what is left of `n` is not negative, the
numbers are words if `n` is one, and the division leaves no remainder. -/
structure Safe (n i value : Nat) : Prop where
  value_lt : value < wordSize
  number_le : i + 1 ≤ n
  dvd : i + 1 ∣ value * (n - i)

/-- The climb goes on from where it passes. -/
theorem Passes.climb?_eq (h : Passes n last i value) :
    climb? n last 0 1 = climb? n (last - i) i value := by
  induction h with
  | start => rfl
  | @step i value _ hlt hfits ih =>
    obtain ⟨steps, hsteps⟩ : ∃ steps, last - i = steps + 1 := ⟨last - i - 1, by omega⟩
    rw [ih, hsteps, climb?, if_pos hfits]
    congr 1
    omega

/-- **The value of a step is its coefficient.** -/
theorem Passes.eq_choose (h : Passes n last i value) : value = n.choose i := by
  induction h with
  | start => exact (Nat.choose_zero_right n).symm
  | step _ _ _ ih => rw [ih, choose_step]

theorem Passes.value_lt (h : Passes n last i value) : value < wordSize := by
  cases h with
  | start => decide
  | step _ _ hfits => exact (Nat.div_le_self _ _).trans_lt hfits

/-- **No step wraps or leaves a remainder.** -/
theorem Passes.safe (h : Passes n last i value) (hlt : i < last) (hlast : last ≤ n) :
    Safe n i value := by
  refine ⟨h.value_lt, by omega, ?_⟩
  rw [h.eq_choose, product_eq]
  exact Nat.dvd_mul_right _ _

/-- **Binomial coefficients are exact or refused.**  There is no way to choose more things than
there are.  Otherwise the coefficient is answered if the last product on the shorter side of the
row fits into a word, and refused if it does not.  Each step on the way has the coefficient of
its number as value, does not wrap, and divides without remainder. -/
theorem coefficients_are_exact_or_refused (k n : Nat) :
    (n < k → choose? k n = some 0) ∧
    (k ≤ n →
      let last := min k (n - k)
      choose? k n = (if last * n.choose last < wordSize then some (n.choose k) else none) ∧
      ∀ i value, Passes n last i value →
        choose? k n = climb? n (last - i) i value ∧ value = n.choose i ∧
          (i < last → Safe n i value)) := by
  refine ⟨fun hlt => if_pos hlt, fun hle => ?_⟩
  intro last
  have hchoose : choose? k n = climb? n last 0 1 := if_neg (Nat.not_lt.2 hle)
  have hlast : n.choose last = n.choose k := by
    rcases Nat.le_total k (n - k) with hk | hk
    · rw [show last = k from Nat.min_eq_left hk]
    · rw [show last = n - k from Nat.min_eq_right hk, Nat.choose_symm hle]
  refine ⟨?_, fun i value h => ⟨hchoose.trans h.climb?_eq, h.eq_choose, fun hlt => ?_⟩⟩
  · have hrow : 2 * (0 + last) ≤ n := by omega
    have hfits : 0 * n.choose 0 < wordSize := by
      rw [Nat.zero_mul]
      decide
    have hclimb := climb?_eq hrow hfits
    rw [Nat.zero_add, Nat.choose_zero_right, hlast] at hclimb
    rw [hchoose, hclimb, hlast]
  · exact h.safe hlt (by omega)

/-- Of sixty-two things thirty-one can be chosen in words.  Of sixty-three they cannot, though
the coefficient is a word. -/
theorem coefficients_are_exact_or_refused_middle :
    (31 ≤ 62 ∧ 31 * Nat.choose 62 31 < wordSize ∧ choose? 31 62 = some (Nat.choose 62 31)) ∧
      (32 ≤ 63 ∧ Nat.choose 63 32 < wordSize ∧ choose? 32 63 = none) ∧
      (2 < 3 ∧ choose? 3 2 = some 0) ∧
      Passes 5 2 1 5 ∧ 1 < 2 ∧ Safe 5 1 5 := by
  have hfits : 31 * Nat.choose 62 31 < wordSize := by
    rw [Nat.choose_eq_descFactorial_div_factorial]
    decide +kernel
  have hlarge : ¬ 31 * Nat.choose 63 31 < wordSize := by
    rw [Nat.choose_eq_descFactorial_div_factorial]
    decide +kernel
  have hword : Nat.choose 63 32 < wordSize := by
    rw [Nat.choose_eq_descFactorial_div_factorial]
    decide +kernel
  have hpasses : Passes 5 2 1 5 := .step .start (by decide) (by decide)
  obtain ⟨-, heven⟩ := coefficients_are_exact_or_refused 31 62
  obtain ⟨-, hodd⟩ := coefficients_are_exact_or_refused 32 63
  obtain ⟨hnone, -⟩ := coefficients_are_exact_or_refused 3 2
  obtain ⟨-, hfive⟩ := coefficients_are_exact_or_refused 2 5
  exact ⟨⟨by decide, hfits, (heven (by decide)).1.trans (if_pos hfits)⟩,
    ⟨by decide, hword, (hodd (by decide)).1.trans (if_neg hlarge)⟩, ⟨by decide, hnone (by decide)⟩,
    hpasses, by decide, ((hfive (by decide)).2 1 5 hpasses).2.2 (by decide)⟩

end DrawLang.Binomial
