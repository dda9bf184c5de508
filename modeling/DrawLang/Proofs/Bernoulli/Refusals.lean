/-
DrawLang/Proofs/Bernoulli/Refusals.lean

Lists of Bernoulli numbers are refused for the size of a number and for nothing
else.  A list is computed over tables that grow and have a slot for each of its
numbers, so that none is too short, and all that such tables hold is in lowest
terms (`texts_refusal`).
-/
import DrawLang.Proofs.Bernoulli.Numbers

namespace DrawLang.Bernoulli

variable {α γ : Type}

/-- A table with so many slots, whose fractions are in lowest terms. -/
structure Table.Sound (size : Nat) (table : Table) : Prop where
  length : table.length = size
  reduced : table.Reduced

/-- From a sound table the computation leads to one, of another size perhaps; or its
numbers are too large. -/
def Filling.Only (size size' : Nat) (f : Filling α) : Prop :=
  ∀ table : Table, table.Sound size →
    match Bernoulli.run f table with
    | (.ok _, table) => table.Sound size'
    | (.error r, _) => r = .tooLarge

variable {size size' size'' : Nat}

theorem Filling.only_pure {a : α} : Filling.Only size size (pure a) :=
  fun _ htable => htable

theorem Filling.only_bind {f : Filling α} {g : α → Filling γ} (hf : f.Only size size')
    (hg : ∀ a, (g a).Only size' size'') : Filling.Only size size'' (f >>= g) := by
  intro table htable
  have hfirst := hf table htable
  rw [run_bind]
  rcases e : Bernoulli.run f table with ⟨r | a, table'⟩ <;> rw [e] at hfirst
  · exact hfirst
  · exact hg a table' hfirst

/-- A number is computed over any table that has a slot for it. -/
theorem only_entry {n : Nat} (hn : n < size) : (entry n).Only size size := by
  intro table htable
  obtain ⟨table', hext, hrun⟩ := gives_entry n table (.refl table)
  have hcomputed := only_computed htable.reduced (htable.length.symm ▸ hn)
  rw [hrun]
  rcases e : computed table n with r | b <;> rw [e] at hcomputed
  · exact hcomputed
  · exact ⟨hext.length.trans htable.length, fun i b hi => (hext.exact htable.reduced hi).1⟩

/-- A slot is added to a table. -/
theorem only_grow : Filling.Only size (size + 1) (modify (· ++ [none])) := by
  refine fun table htable => ⟨?_, fun i b hi => htable.reduced i b (filled_of_grow hi)⟩
  rw [List.length_append, htable.length, List.length_singleton]

theorem only_textsFrom (count i : Nat) : (textsFrom count i).Only i (i + count) := by
  induction count generalizing i with
  | zero => exact Filling.only_pure
  | succ count ih =>
    refine Filling.only_bind only_grow fun _ => ?_
    refine Filling.only_bind (only_entry (Nat.lt_succ_self i)) fun b => ?_
    rw [show i + (count + 1) = i + 1 + count by omega]
    exact Filling.only_bind (ih (i + 1)) fun _ => Filling.only_pure

/-- **A list of Bernoulli numbers is only refused for the size of its numbers.** -/
theorem texts_refusal {count : Nat} {r : Refusal} (h : texts count = .error r) : r = .tooLarge := by
  have hblank : Table.Sound 2 (blank 2) :=
    ⟨List.length_replicate, fun i b hi => absurd hi blank_ne_filled⟩
  have htexts := only_textsFrom count 2 (blank 2) hblank
  unfold texts at h
  rcases e : Bernoulli.run (textsFrom count 2) (blank 2) with ⟨r' | t, table⟩ <;> rw [e] at h htexts
  · cases h
    exact htexts
  · cases h

end DrawLang.Bernoulli
