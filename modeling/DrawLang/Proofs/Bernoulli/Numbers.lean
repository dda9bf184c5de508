/-
DrawLang/Proofs/Bernoulli/Numbers.lean

Numbers over the rationals.  `expected` is the recursion for Bernoulli numbers in
exact arithmetic, where some of the numbers are given.  What is computed in words is
this number in lowest terms, or is refused for the size of its numbers
(`only_computed`).
-/
import Mathlib.Algebra.BigOperators.Fin
import Mathlib.Algebra.BigOperators.Intervals
import DrawLang.Proofs.Bernoulli.Entry

namespace DrawLang.Bernoulli

open Refusal Fraction

/-- The number of index `n`, with the numbers of the filled slots as they are:

    B(0) = 1,   B(n) = -1/(n+1) · Σ_{k<n} C(n+1, k) · B(k). -/
def expected (start : Table) (n : Nat) : ℚ :=
  match start[n]? with
  | some (some b) => b.value
  | _ => if n = 0 then 1 else -(∑ k : Fin n, (n + 1).choose k * expected start k) / (n + 1)
termination_by n
decreasing_by exact k.isLt

/-- All fractions in the table are in lowest terms. -/
def Table.Reduced (table : Table) : Prop :=
  ∀ (i : Nat) b, table[i]? = some (some b) → b.Reduced

theorem only_partialSum {n : Nat} {number : (k : Nat) → k < n → Except Refusal Fraction}
    {v : Nat → ℚ} (hnumber : ∀ k h, Only (fun b => b.Reduced ∧ b.value = v k) (number k h))
    (todo : Nat) (h : todo ≤ n) {sum : Fraction} (hsum : sum.Reduced) :
    Only (fun f => f.Reduced ∧
        f.value = sum.value + ∑ k ∈ Finset.Ico (n - todo) n, (n + 1).choose k * v k)
      (partialSum n number todo h sum) := by
  induction todo generalizing sum with
  | zero => exact ⟨hsum, by simp⟩
  | succ todo ih =>
    refine only_bind (hnumber _ _) fun b hb => ?_
    refine only_bind (only_addTerm n _ hb.1 hsum) fun sum' hsum' => ?_
    refine (ih _ hsum'.1).imp fun f hf => ⟨hf.1, ?_⟩
    have hlt : n - (todo + 1) < n := by omega
    rw [hf.2, hsum'.2, hb.2, Finset.sum_eq_sum_Ico_succ_bot hlt, add_assoc,
      show n - (todo + 1) + 1 = n - todo by omega]

theorem one_reduced : Fraction.Reduced ⟨1, 1⟩ := ⟨by decide, by decide, by decide, by decide⟩

theorem zero_reduced : Fraction.Reduced ⟨0, 1⟩ := ⟨by decide, by decide, by decide, by decide⟩

/-- **Numbers are exact, or refused for their size.** -/
theorem only_computed {start : Table} (hstart : start.Reduced) {n : Nat} (hn : n < start.length) :
    Only (fun b => b.Reduced ∧ b.value = expected start n) (computed start n) := by
  induction n using Nat.strongRecOn with
  | ind n ih =>
    rw [computed, expected]
    rcases e : start[n]? with _ | _ | b
    · exact absurd (List.getElem?_eq_none_iff.1 e) (Nat.not_le.2 hn)
    · show Only _ (if n = 0 then _ else _)
      by_cases hzero : n = 0
      · rw [if_pos hzero, if_pos hzero]
        exact ⟨one_reduced, by simp [value]⟩
      · rw [if_neg hzero, if_neg hzero]
        have hnumber (k : Nat) (h : k < n) := ih k h (Nat.lt_trans h hn)
        refine only_bind (only_partialSum hnumber n (Nat.le_refl n) zero_reduced)
          fun sum hsum => (only_scaled n hsum.1).imp fun b hb => ⟨hb.1, ?_⟩
        rw [hb.2, hsum.2, Nat.sub_self, ← Finset.range_eq_Ico, Finset.sum_range]
        simp [value]
    · exact ⟨hstart n b e, rfl⟩

/-- **A table holds nothing but exact numbers** if it has come from one in lowest terms. -/
theorem Table.Extends.exact {start table : Table} (h : start.Extends table)
    (hstart : start.Reduced) {i : Nat} {b : Fraction} (hi : table[i]? = some (some b)) :
    b.Reduced ∧ b.value = expected start i := by
  have hlt : i < start.length := h.length ▸ (List.getElem?_eq_some_iff.1 hi).1
  have hcomputed := only_computed hstart hlt
  rwa [h.results i b hi] at hcomputed

end DrawLang.Bernoulli
