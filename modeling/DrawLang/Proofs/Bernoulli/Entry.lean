/-
DrawLang/Proofs/Bernoulli/Entry.lean

What a table is for.  `computed` is the recursion for Bernoulli numbers over the
slots that are filled at the start, with no table to record anything in.  Looking
up a number in a table comes to the same, whatever has been recorded in the
meantime, and records only what the recursion gives, also where it is refused
(`gives_entry`).
-/
import DrawLang.Proofs.Bernoulli.Exact

namespace DrawLang.Bernoulli

variable {α γ : Type}

/-! ### Numbers without a table -/

/-- The sum over the last `todo` of the numbers below `n`, for given results of those numbers. -/
def partialSum (n : Nat) (number : (k : Nat) → k < n → Except Refusal Fraction) :
    (todo : Nat) → todo ≤ n → Fraction → Except Refusal Fraction
  | 0, _, sum => .ok sum
  | todo + 1, h, sum => do
    let b ← number (n - (todo + 1)) (by omega)
    let sum ← addTerm n (n - (todo + 1)) b sum
    partialSum n number todo (by omega) sum

/-- The number of index `n` where these slots are filled, computed anew each time that
it is needed. -/
def computed (start : Table) (n : Nat) : Except Refusal Fraction :=
  match start[n]? with
  | none => .error (.crash .shortTable)
  | some (some b) => .ok b
  | some none =>
    if n = 0 then .ok ⟨1, 1⟩
    else do
      let sum ← partialSum n (fun k _ => computed start k) n (Nat.le_refl n) ⟨0, 1⟩
      scaled n sum
termination_by n

theorem computed_of_filled {start : Table} {n : Nat} {b : Fraction}
    (h : start[n]? = some (some b)) : computed start n = .ok b := by
  rw [computed, h]

/-! ### Tables on the way -/

/-- No slot of a blank table is filled. -/
theorem blank_ne_filled {size i : Nat} {b : Fraction} : (blank size)[i]? ≠ some (some b) :=
  fun h => absurd (List.eq_of_mem_replicate (List.mem_of_getElem? h)) nofun

/-- A slot that is added is not filled. -/
theorem filled_of_grow {table : Table} {i : Nat} {b : Fraction}
    (h : (table ++ [none])[i]? = some (some b)) : table[i]? = some (some b) := by
  rw [List.getElem?_append] at h
  split at h
  · exact h
  · exact absurd (List.mem_singleton.1 (List.mem_of_getElem? h)) nofun

/-- What comes first leaves its table behind, also where it is refused. -/
theorem run_bind (f : Filling α) (g : α → Filling γ) (table : Table) :
    Bernoulli.run (f >>= g) table = match Bernoulli.run f table with
      | (.ok a, table) => Bernoulli.run (g a) table
      | (.error r, table) => (.error r, table) := by
  unfold Bernoulli.run EStateM.run
  rw [show (f >>= g) table = EStateM.bind f g table from rfl, EStateM.bind]
  rcases f table with ⟨a, after⟩ | ⟨r, after⟩ <;> rfl

/-- The table has come from one at the start by recording computed numbers. -/
structure Table.Extends (start table : Table) : Prop where
  length : table.length = start.length
  kept : ∀ (i : Nat) b, start[i]? = some (some b) → table[i]? = some (some b)
  results : ∀ (i : Nat) b, table[i]? = some (some b) → computed start i = .ok b

theorem Table.Extends.refl (start : Table) : start.Extends start :=
  ⟨rfl, fun _ _ h => h, fun _ _ h => computed_of_filled h⟩

/-- A number is recorded. -/
theorem Table.Extends.set {start table : Table} (h : start.Extends table) {n : Nat} {b : Fraction}
    (hb : computed start n = .ok b) : start.Extends (table.set n (some b)) := by
  refine ⟨(List.length_set ..).trans h.length, fun i c hi => ?_, fun i c hi => ?_⟩
  · have hkept := h.kept i c hi
    rcases eq_or_ne n i with rfl | hni
    · obtain rfl := Except.ok.inj (hb.symm.trans (computed_of_filled hi))
      exact List.getElem?_set_self (List.getElem?_eq_some_iff.1 hkept).1
    · rwa [List.getElem?_set_ne hni]
  · rcases eq_or_ne n i with rfl | hni
    · have hlt := (List.getElem?_eq_some_iff.1 hi).1
      rw [List.getElem?_set_self (by rwa [List.length_set] at hlt)] at hi
      exact Option.some.inj (Option.some.inj hi) ▸ hb
    · rw [List.getElem?_set_ne hni] at hi
      exact h.results i c hi

/-- On every table that has come from the start, the computation comes to a result that is
told without the table, and leaves such a table. -/
def Filling.Gives (start : Table) (f : Filling α) (x : Except Refusal α) : Prop :=
  ∀ table, start.Extends table →
    ∃ table', start.Extends table' ∧ Bernoulli.run f table = (x, table')

variable {start : Table}

theorem Filling.gives_pure (a : α) : Filling.Gives start (pure a) (.ok a) :=
  fun table htable => ⟨table, htable, rfl⟩

theorem Filling.gives_pureResult (x : Except Refusal α) :
    Filling.Gives start (pureResult x) x := by
  rcases x with r | a <;> exact fun table htable => ⟨table, htable, rfl⟩

theorem Filling.gives_bind {f : Filling α} {g : α → Filling γ} {x : Except Refusal α}
    {y : α → Except Refusal γ} (hf : f.Gives start x)
    (hg : ∀ a, x = .ok a → (g a).Gives start (y a)) : (f >>= g).Gives start (x >>= y) := by
  intro table htable
  obtain ⟨table', htable', hrun⟩ := hf table htable
  rw [run_bind, hrun]
  rcases x with r | a
  · exact ⟨table', htable', rfl⟩
  · exact hg a rfl table' htable'

theorem Filling.gives_record {n : Nat} {b : Fraction} (hb : computed start n = .ok b) :
    Filling.Gives start (record n b) (.ok b) :=
  fun table htable => ⟨table.set n (some b), htable.set hb, rfl⟩

theorem gives_sumTerms {n : Nat} {entry : (k : Nat) → k < n → Filling Fraction}
    {number : (k : Nat) → k < n → Except Refusal Fraction}
    (he : ∀ k h, (entry k h).Gives start (number k h)) (todo : Nat) (h : todo ≤ n)
    (sum : Fraction) :
    (sumTerms n entry todo h sum).Gives start (partialSum n number todo h sum) := by
  induction todo generalizing sum with
  | zero => exact Filling.gives_pure sum
  | succ todo ih =>
    refine Filling.gives_bind (he _ _) fun b _ => ?_
    exact Filling.gives_bind (Filling.gives_pureResult _) fun sum _ => ih _ sum

/-- A number that is missing from the table. -/
def missing (n : Nat) : Filling Fraction :=
  if n = 0 then record n ⟨1, 1⟩
  else do
    let sum ← sumTerms n (fun k _ => entry k) n (Nat.le_refl n) ⟨0, 1⟩
    record n (← pureResult (scaled n sum))

theorem run_entry (n : Nat) (table : Table) :
    Bernoulli.run (entry n) table = match table[n]? with
      | none => (.error (.crash .shortTable), table)
      | some (some b) => (.ok b, table)
      | some none => Bernoulli.run (missing n) table := by
  rw [entry]
  show Bernoulli.run (match table[n]? with
    | none => throw (.crash .shortTable)
    | some (some b) => pure b
    | some none => missing n : Filling Fraction) table = _
  split <;> rfl

/-- What is missing is computed from smaller numbers. -/
theorem gives_missing {n : Nat} (h : start[n]? = some none)
    (ih : ∀ k < n, (entry k).Gives start (computed start k)) :
    (missing n).Gives start (computed start n) := by
  have hcomputed : computed start n = if n = 0 then .ok ⟨1, 1⟩ else
      partialSum n (fun k _ => computed start k) n (Nat.le_refl n) ⟨0, 1⟩ >>= scaled n := by
    rw [computed, h]
  unfold missing
  split
  case isTrue hn =>
    rw [if_pos hn] at hcomputed
    exact hcomputed ▸ Filling.gives_record hcomputed
  case isFalse hn =>
    rw [if_neg hn, ← bind_pure (_ >>= _), bind_assoc] at hcomputed
    rw [hcomputed]
    refine Filling.gives_bind (gives_sumTerms (fun k hk => ih k hk) _ _ _) fun sum hsum => ?_
    refine Filling.gives_bind (Filling.gives_pureResult _) fun b hb => ?_
    refine Filling.gives_record (hcomputed.trans ?_)
    rw [hsum]
    show scaled n sum >>= pure = _
    rw [hb]
    rfl

/-- **A table changes no result**, and holds nothing but results. -/
theorem gives_entry (n : Nat) : (entry n).Gives start (computed start n) := by
  -- a number is looked up, or computed from smaller ones
  induction n using Nat.strongRecOn with
  | ind n ih =>
    intro table htable
    rw [run_entry]
    rcases e : table[n]? with _ | _ | b
    · have hle := htable.length ▸ List.getElem?_eq_none_iff.1 e
      exact ⟨table, htable, by rw [computed, List.getElem?_eq_none_iff.2 hle]⟩
    · have hlt := htable.length ▸ (List.getElem?_eq_some_iff.1 e).1
      have hstart : start[n]? = some none := by
        rcases e' : start[n]? with _ | _ | b
        · exact absurd (List.getElem?_eq_none_iff.1 e') (Nat.not_le.2 hlt)
        · rfl
        · exact absurd ((htable.kept n b e').symm.trans e) nofun
      exact gives_missing hstart ih table htable
    · exact ⟨table, htable, by rw [htable.results n b e]⟩

end DrawLang.Bernoulli
