/-
DrawLang/Proofs/Bernoulli/Calls.lean

What a call for a Bernoulli number may be trusted with.  Over a table with a slot for
the number and any reduced fractions in the others, the answer is exact or refused for
the size of its numbers, and what is recorded on the way is exact too
(`answers_exactly_or_refuses`).  Over a table that only such calls have filled, the
answers are the Bernoulli numbers.
-/
import Mathlib.NumberTheory.Bernoulli
import DrawLang.Proofs.Bernoulli.Numbers

namespace DrawLang.Bernoulli

/-! ### Bernoulli numbers -/

/-- The recursion for Bernoulli numbers, solved for the last of them. -/
theorem bernoulli_eq_neg_sum {n : Nat} (hn : n ≠ 0) :
    bernoulli n = -(∑ k : Fin n, (n + 1).choose k * bernoulli k) / (n + 1) := by
  have hsum := sum_bernoulli (n + 1)
  rw [if_neg (by omega), Finset.sum_range_succ, Nat.choose_succ_self_right, Finset.sum_range]
    at hsum
  rw [eq_div_iff (Nat.cast_add_one_ne_zero n), mul_comm, ← Nat.cast_add_one]
  exact eq_neg_of_add_eq_zero_right hsum

/-- A number is not answered where there is no slot for it. -/
theorem lt_length_of_computed {start : Table} {n : Nat} {b : Fraction}
    (h : computed start n = .ok b) : n < start.length := by
  by_contra hle
  rw [computed, List.getElem?_eq_none_iff.2 (Nat.not_lt.1 hle)] at h
  cases h

/-- What the filled slots hold are Bernoulli numbers in lowest terms. -/
def Table.Genuine (table : Table) : Prop :=
  ∀ (i : Nat) b, table[i]? = some (some b) → b.Reduced ∧ b.value = bernoulli i

/-- **Where Bernoulli numbers are given, Bernoulli numbers are expected.** -/
theorem expected_eq_bernoulli {start : Table} (h : start.Genuine) (n : Nat) :
    expected start n = bernoulli n := by
  induction n using Nat.strongRecOn with
  | ind n ih =>
    have hempty : (if n = 0 then 1 else
        -(∑ k : Fin n, (n + 1).choose k * expected start k) / (n + 1)) = bernoulli n := by
      split
      case isTrue hn => rw [hn, bernoulli_zero]
      case isFalse hn =>
        rw [bernoulli_eq_neg_sum hn, Finset.sum_congr rfl fun k _ => by rw [ih k k.isLt]]
    rw [expected]
    split
    · rename_i b e
      exact (h n b e).2
    · exact hempty

/-! ### Calls -/

/-- A table that has been empty, in which slots have been added and numbers asked for. -/
inductive Table.Reached : Table → Prop
  | blank (size : Nat) : Reached (blank size)
  | grow {table : Table} (h : Reached table) : Reached (table ++ [none])
  | call {table : Table} (h : Reached table) (n : Nat) : Reached (Bernoulli.run (entry n) table).2

theorem Table.Reached.genuine {table : Table} (h : table.Reached) : table.Genuine := by
  induction h with
  | blank size => exact fun i b hi => absurd hi blank_ne_filled
  | grow _ ih => exact fun i b hi => ih i b (filled_of_grow hi)
  | call _ n ih =>
    intro i b hi
    obtain ⟨table', hext, hrun⟩ := gives_entry n _ (.refl _)
    rw [hrun] at hi
    have hexact := hext.exact (fun i b hi => (ih i b hi).1) hi
    rwa [expected_eq_bernoulli ih] at hexact

/-- **A number is answered exactly, or refused for the size of its numbers.**  Take a table
that has a slot for the number and whose filled slots are in lowest terms.  The answer is
in lowest terms, and the number that the recursion defines from what is given; or a number
on the way does not fit into a word.  In both cases the filled slots stay as they are,
and those that are filled are exact in the same way.  Over tables that only such calls
have filled, the answer is the Bernoulli number. -/
theorem answers_exactly_or_refuses (n : Nat) :
    (∀ table : Table, n < table.length → table.Reduced →
      let (answer, after) := Bernoulli.run (entry n) table
      (∀ r, answer = .error r → r = .tooLarge) ∧
        (∀ b, answer = .ok b → b.Reduced ∧ b.value = expected table n) ∧
        after.length = table.length ∧
        (∀ (i : Nat) b, table[i]? = some (some b) → after[i]? = some (some b)) ∧
        ∀ (i : Nat) b, after[i]? = some (some b) → b.Reduced ∧ b.value = expected table i) ∧
    ∀ table : Table, table.Reached →
      ∀ b, (Bernoulli.run (entry n) table).1 = .ok b → b.Reduced ∧ b.value = bernoulli n := by
  refine ⟨fun table hn hreduced => ?_, fun table hreached b hb => ?_⟩
  · obtain ⟨after, hext, hrun⟩ := gives_entry n table (.refl table)
    have hcomputed := only_computed hreduced hn
    rw [hrun]
    refine ⟨fun r hr => ?_, fun b hb => ?_, hext.length, hext.kept, fun i b => hext.exact hreduced⟩
    · rwa [hr] at hcomputed
    · rwa [hb] at hcomputed
  · have hgenuine := hreached.genuine
    obtain ⟨after, -, hrun⟩ := gives_entry n table (.refl table)
    rw [hrun] at hb
    have hcomputed := only_computed (fun i b hi => (hgenuine i b hi).1) (lt_length_of_computed hb)
    rwa [show computed table n = .ok b from hb, expected_eq_bernoulli hgenuine] at hcomputed

/-- Over a table that starts with 5/7 there are numbers that start with 5/7, and over a table
of the first two Bernoulli numbers there is the third. -/
theorem answers_exactly_or_refuses_given :
    let given : Table := [some ⟨5, 7⟩, none, none]
    let reached : Table := (Bernoulli.run (entry 1) (blank 3)).2
    2 < given.length ∧ given.Reduced ∧ reached.Reached ∧
      Bernoulli.run (entry 2) given = (.ok ⟨5, 42⟩, [some ⟨5, 7⟩, some ⟨-5, 14⟩, some ⟨5, 42⟩]) ∧
      Fraction.value ⟨-5, 14⟩ = expected given 1 ∧ Fraction.value ⟨5, 42⟩ = expected given 2 ∧
      (Bernoulli.run (entry 2) reached).1 = .ok ⟨1, 6⟩ ∧ Fraction.value ⟨1, 6⟩ = bernoulli 2 := by
  intro given reached
  have hgiven : given.Reduced := by
    intro i b hi
    obtain rfl : b = ⟨5, 7⟩ := by simpa [given] using List.mem_of_getElem? hi
    exact ⟨by decide, by decide, by decide, by decide⟩
  have hreached : reached.Reached := .call (.blank 3) 1
  have hrun : Bernoulli.run (entry 2) given =
      (.ok ⟨5, 42⟩, [some ⟨5, 7⟩, some ⟨-5, 14⟩, some ⟨5, 42⟩]) := by decide +kernel
  have hthird : (Bernoulli.run (entry 2) reached).1 = .ok ⟨1, 6⟩ := by decide +kernel
  obtain ⟨hover, htrue⟩ := answers_exactly_or_refuses 2
  have hanswer := hover given (by decide) hgiven
  rw [hrun] at hanswer
  obtain ⟨-, hvalue, -, -, hrecorded⟩ := hanswer
  exact ⟨by decide, hgiven, hreached, hrun, (hrecorded 1 _ rfl).2, (hvalue _ rfl).2, hthird,
    (htrue reached hreached _ hthird).2⟩

end DrawLang.Bernoulli
