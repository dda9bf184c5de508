/-
DrawLang/Proofs/Bernoulli/Texts.lean

Lists of Bernoulli numbers, number by number.  What is computed for a number does not depend on
how many slots a blank table has, as long as there is one for it (`computed_blank`).  So the
list that is made over one growing table has the texts of the numbers that are each computed
over a table of their own (`texts_eq_mapM`), and it is made just if all of these numbers are
(`exists_texts_iff`).
-/
import Mathlib.Data.List.Forall2
import DrawLang.Proofs.Bernoulli.Entry

namespace DrawLang.Bernoulli

variable {α γ ρ : Type}

/-! ### Rows of results -/

/-- A row of results is made of one result for each item. -/
theorem mapM_eq_ok_iff {f : α → Except ρ γ} {xs : List α} {ys : List γ} :
    xs.mapM f = .ok ys ↔ List.Forall₂ (fun x y => f x = .ok y) xs ys := by
  induction xs generalizing ys with
  | nil =>
    rw [List.forall₂_nil_left_iff]
    constructor
    · rintro ⟨⟩
      rfl
    · rintro rfl
      rfl
  | cons x xs ih =>
    rw [List.mapM_cons, List.forall₂_cons_left_iff]
    constructor
    · intro h
      rcases hx : f x with r | y <;> rw [hx] at h
      · cases h
      rcases hxs : xs.mapM f with r | ys' <;> rw [hxs] at h
      · cases h
      cases h
      exact ⟨y, ys', rfl, ih.1 hxs, rfl⟩
    · rintro ⟨y, ys', hx, hxs, rfl⟩
      rw [hx, ih.2 hxs]
      rfl

/-- There is a row of results just if there is a result for each item. -/
theorem exists_mapM_iff {f : α → Except ρ γ} {xs : List α} :
    (∃ ys, xs.mapM f = .ok ys) ↔ ∀ x ∈ xs, ∃ y, f x = .ok y := by
  simp only [mapM_eq_ok_iff]
  induction xs with
  | nil => exact ⟨fun _ => nofun, fun _ => ⟨[], .nil⟩⟩
  | cons x xs ih =>
    rw [List.forall_mem_cons, ← ih]
    constructor
    · rintro ⟨_, h⟩
      cases h with
      | cons hx hxs => exact ⟨⟨_, hx⟩, ⟨_, hxs⟩⟩
    · rintro ⟨⟨y, hx⟩, ⟨ys, hxs⟩⟩
      exact ⟨y :: ys, .cons hx hxs⟩

/-! ### Blank tables -/

theorem getElem?_blank {size i : Nat} (h : i < size) : (blank size)[i]? = some none := by
  rw [blank, List.getElem?_replicate, if_pos h]

/-- **The size of a blank table changes no result.** -/
theorem computed_blank {size size' n : Nat} (h : n < size) (h' : n < size') :
    computed (blank size) n = computed (blank size') n := by
  induction n using Nat.strongRecOn with
  | ind n ih =>
    rw [computed, computed, getElem?_blank h, getElem?_blank h']
    have hsmaller : (fun (k : Nat) (_ : k < n) => computed (blank size) k)
        = fun k _ => computed (blank size') k := by
      funext k hk
      exact ih k hk (hk.trans h) (hk.trans h')
    rw [hsmaller]

theorem number_eq_computed (n : Nat) : number n = computed (blank (n + 1)) n := by
  obtain ⟨table, -, hrun⟩ := gives_entry n (blank (n + 1)) (.refl _)
  rw [number, hrun]

/-- A table with one more slot has come from a blank one with one more slot. -/
theorem Table.Extends.grow {size : Nat} {table : Table} (h : (blank size).Extends table) :
    (blank (size + 1)).Extends (table ++ [none]) := by
  refine ⟨?_, fun i b hi => absurd hi blank_ne_filled, fun i b hi => ?_⟩
  · rw [List.length_append, h.length, blank, blank, List.length_replicate, List.length_replicate]
    rfl
  · have hfilled := filled_of_grow hi
    have hlt : i < size := by
      have := (List.getElem?_eq_some_iff.1 hfilled).1
      rwa [h.length, blank, List.length_replicate] at this
    rw [← computed_blank hlt (Nat.lt_succ_of_lt hlt)]
    exact h.results i b hfilled

/-! ### Refused numbers -/

/-- A sum is only computed where all its numbers are, and can be added. -/
theorem exists_term_of_partialSum {n : Nat}
    {number : (k : Nat) → k < n → Except Refusal Fraction} {todo : Nat} {h : todo ≤ n}
    {sum s : Fraction} (hs : partialSum n number todo h sum = .ok s) {k : Nat} (hk : n - todo ≤ k)
    (hlt : k < n) : ∃ b before after, number k hlt = .ok b ∧ addTerm n k b before = .ok after := by
  induction todo generalizing sum with
  | zero => omega
  | succ todo ih =>
    change number (n - (todo + 1)) (by omega) >>= (fun b =>
      addTerm n (n - (todo + 1)) b sum >>= fun sum => partialSum n number todo (by omega) sum)
        = .ok s at hs
    rcases hb : number (n - (todo + 1)) (by omega) with r | b <;> rw [hb] at hs
    · cases hs
    change addTerm n (n - (todo + 1)) b sum >>= _ = _ at hs
    rcases hterm : addTerm n (n - (todo + 1)) b sum with r | sum' <;> rw [hterm] at hs
    · cases hs
    rcases Nat.lt_or_eq_of_le hk with hlater | rfl
    · exact ih hs (by omega)
    · exact ⟨b, sum, sum', hb, hterm⟩

/-- **A number is only computed where all smaller ones are**, and can be added. -/
theorem exists_term_of_number {n : Nat} {b : Fraction} (h : number n = .ok b) {k : Nat}
    (hlt : k < n) :
    ∃ c before after, number k = .ok c ∧ addTerm n k c before = .ok after := by
  rw [number_eq_computed, computed, getElem?_blank (Nat.lt_succ_self n)] at h
  change (if n = 0 then _ else _) = _ at h
  rw [if_neg (Nat.ne_of_gt (Nat.zero_lt_of_lt hlt))] at h
  rcases hs : partialSum n (fun k _ => computed (blank (n + 1)) k) n (Nat.le_refl n) ⟨0, 1⟩
    with r | s <;> rw [hs] at h
  · cases h
  · obtain ⟨c, before, after, hc, hterm⟩ := exists_term_of_partialSum hs (by omega) hlt
    refine ⟨c, before, after, ?_, hterm⟩
    rw [number_eq_computed, ← hc]
    exact computed_blank (Nat.lt_succ_self k) (Nat.lt_succ_of_lt hlt)

/-- A term is only added where its binomial coefficient is computed. -/
theorem exists_choose?_of_addTerm {n k : Nat} {b before after : Fraction}
    (h : addTerm n k b before = .ok after) : ∃ c, Binomial.choose? k (n + 1) = some c := by
  rw [addTerm] at h
  rcases hc : Binomial.choose? k (n + 1) with - | c <;> rw [hc] at h
  · cases h
  · exact ⟨c, rfl⟩

/-- Some number is refused: fifty out of a hundred things cannot be chosen in words. -/
theorem number_ninetyNine_refused (b : Fraction) : number 99 ≠ .ok b := by
  intro h
  obtain ⟨_, _, _, _, hterm⟩ := exists_term_of_number h (k := 50) (by decide)
  obtain ⟨c, hc⟩ := exists_choose?_of_addTerm hterm
  exact absurd (hc.symm.trans (by decide +kernel : Binomial.choose? 50 100 = none)) nofun

/-! ### Texts -/

/-- The text of the number of index `n`. -/
def told (n : Nat) : Except Refusal Text := (number n).map Fraction.text

/-- Over a table that has a slot less than the first index the texts are those of the numbers. -/
theorem run_textsFrom (count i : Nat) {table : Table} (h : (blank i).Extends table) :
    (Bernoulli.run (textsFrom count i) table).1 = (List.range' i count).mapM told := by
  induction count generalizing i table with
  | zero => rfl
  | succ count ih =>
    obtain ⟨table', htable', hrun⟩ := gives_entry i _ h.grow
    rw [← number_eq_computed] at hrun
    rw [textsFrom, run_bind, List.range'_succ, List.mapM_cons]
    show (Bernoulli.run (entry i >>= _) (table ++ [none])).1 = _
    rw [run_bind, hrun, told]
    rcases number i with r | b
    · rfl
    · show (Bernoulli.run (textsFrom count (i + 1) >>= _) table').1 = _
      rw [run_bind, ← ih (i + 1) htable']
      rcases Bernoulli.run (textsFrom count (i + 1)) table' with ⟨r | ts, _⟩ <;> rfl

/-- **A list has the texts of the numbers.** -/
theorem texts_eq_mapM (count : Nat) : texts count = (List.range' 2 count).mapM told :=
  run_textsFrom count 2 (.refl _)

theorem told_eq_ok_iff {n : Nat} {t : Text} :
    told n = .ok t ↔ ∃ b, number n = .ok b ∧ b.text = t := by
  unfold told
  rcases number n with r | b
  · exact ⟨nofun, fun ⟨_, h, _⟩ => nomatch h⟩
  · exact ⟨fun h => ⟨b, rfl, Except.ok.inj h⟩, fun ⟨_, hb, ht⟩ => by cases hb; exact congrArg _ ht⟩

/-- The texts of a list are those of the numbers from index two on. -/
theorem texts_eq_ok_iff {count : Nat} {ts : List Text} :
    texts count = .ok ts ↔
      List.Forall₂ (fun n t => ∃ b, number n = .ok b ∧ b.text = t) (List.range' 2 count) ts := by
  rw [texts_eq_mapM, mapM_eq_ok_iff]
  simp only [told_eq_ok_iff]

/-- **A list is made just if its numbers are computed.** -/
theorem exists_texts_iff {count : Nat} :
    (∃ ts, texts count = .ok ts) ↔ ∀ i < count, ∃ b, number (i + 2) = .ok b := by
  rw [texts_eq_mapM, exists_mapM_iff]
  constructor
  · intro h i hi
    obtain ⟨t, ht⟩ := h (i + 2) (List.mem_range'_1.2 ⟨by omega, by omega⟩)
    obtain ⟨b, hb, -⟩ := told_eq_ok_iff.1 ht
    exact ⟨b, hb⟩
  · intro h n hn
    obtain ⟨hge, hlt⟩ := List.mem_range'_1.1 hn
    obtain ⟨b, hb⟩ := h (n - 2) (by omega)
    rw [Nat.sub_add_cancel hge] at hb
    exact ⟨b.text, told_eq_ok_iff.2 ⟨b, hb, rfl⟩⟩

end DrawLang.Bernoulli
