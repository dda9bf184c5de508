/-
DrawLang/Proofs/Bernoulli/Lists.lean

Lists of Bernoulli numbers over one table.  The numbers that are made over a shared table are
those that are each computed over a table of their own (`numbers_eq_mapM`).  A number is computed
from all smaller ones, so a list is made just if its last number is computed, and where one
number is refused all later ones are (`exists_numbers_iff`, `number_refused_of_le`).  The texts
that are made over a growing table follow them (`exists_texts_iff_last`).
-/
import DrawLang.Proofs.Bernoulli.Refusals
import DrawLang.Proofs.Bernoulli.Texts

namespace DrawLang.Bernoulli

variable {α γ ρ : Type} {n k : Nat}

/-! ### Refusals -/

/-- A number is refused for its size, or the size of a smaller one. -/
theorem number_refusal {r : Refusal} (h : number n = .error r) : r = .tooLarge := by
  have hreduced : Table.Reduced (blank (n + 1)) := fun i b hi => absurd hi blank_ne_filled
  have hcomputed := only_computed hreduced (n := n) (by simp [blank])
  rwa [← number_eq_computed, h] at hcomputed

theorem exists_number_or_refused (n : Nat) :
    (∃ b, number n = .ok b) ∨ number n = .error .tooLarge := by
  rcases h : number n with r | b
  · exact .inr (by rw [number_refusal h])
  · exact .inl ⟨b, rfl⟩

/-- Smaller numbers are computed. -/
theorem exists_number_of_le (h : ∃ b, number n = .ok b) (hle : k ≤ n) : ∃ b, number k = .ok b := by
  rcases Nat.lt_or_eq_of_le hle with hlt | rfl
  · obtain ⟨b, hb⟩ := h
    obtain ⟨c, -, -, hc, -⟩ := exists_term_of_number hb hlt
    exact ⟨c, hc⟩
  · exact h

/-- **Where a number is refused all later ones are.** -/
theorem number_refused_of_le (h : number k = .error .tooLarge) (hle : k ≤ n) :
    number n = .error .tooLarge := by
  refine (exists_number_or_refused n).resolve_left fun hn => ?_
  obtain ⟨b, hb⟩ := exists_number_of_le hn hle
  exact nomatch hb.symm.trans h

/-! ### Lists -/

/-- A row of computations over one table comes to the row of their results. -/
theorem Filling.gives_mapM {start : Table} {f : α → Filling γ} {g : α → Except Refusal γ}
    {as : List α} (hfg : ∀ a ∈ as, (f a).Gives start (g a)) :
    Filling.Gives start (as.mapM f) (as.mapM g) := by
  induction as with
  | nil => exact Filling.gives_pure []
  | cons a as ih =>
    rw [List.forall_mem_cons] at hfg
    rw [List.mapM_cons, List.mapM_cons]
    exact Filling.gives_bind hfg.1 fun c _ =>
      Filling.gives_bind (ih hfg.2) fun cs _ => Filling.gives_pure (c :: cs)

/-- **A list over one table has the numbers that are computed over tables of their own.** -/
theorem numbers_eq_mapM (n : Nat) : numbers n = (List.range (n + 1)).mapM number := by
  have hentry : ∀ k ∈ List.range (n + 1), (entry k).Gives (blank (n + 1)) (number k) := by
    intro k hk
    rw [number_eq_computed, computed_blank (Nat.lt_succ_self k) (List.mem_range.1 hk)]
    exact gives_entry k
  obtain ⟨table, -, hrun⟩ := Filling.gives_mapM hentry _ (.refl _)
  rw [numbers, hrun]

/-- **A list is made just if its last number is computed.** -/
theorem exists_numbers_iff : (∃ bs, numbers n = .ok bs) ↔ ∃ b, number n = .ok b := by
  rw [numbers_eq_mapM, exists_mapM_iff]
  constructor
  · exact fun h => h n (List.mem_range.2 (Nat.lt_succ_self n))
  · exact fun h k hk => exists_number_of_le h (Nat.le_of_lt_succ (List.mem_range.1 hk))

/-- The items of a list are the numbers in their order. -/
theorem getElem?_numbers {bs : List Fraction} (h : numbers n = .ok bs) :
    bs.length = n + 1 ∧ ∀ k ≤ n, ∃ b, bs[k]? = some b ∧ number k = .ok b := by
  rw [numbers_eq_mapM, mapM_eq_ok_iff] at h
  have hlength := h.length_eq
  rw [List.length_range] at hlength
  refine ⟨hlength.symm, fun k hk => ?_⟩
  have hlt : k < bs.length := by omega
  refine ⟨bs[k], List.getElem?_eq_getElem hlt, ?_⟩
  have hget := h.get (i := k) (by rw [List.length_range]; omega) hlt
  rwa [List.get_eq_getElem, List.get_eq_getElem, List.getElem_range] at hget

theorem exists_of_mapM_eq_error {f : α → Except ρ γ} {as : List α} {r : ρ}
    (h : as.mapM f = .error r) : ∃ a ∈ as, f a = .error r := by
  induction as with
  | nil => cases h
  | cons a as ih =>
    rw [List.mapM_cons] at h
    rcases ha : f a with s | c <;> rw [ha] at h
    · cases h
      exact ⟨a, List.mem_cons_self, ha⟩
    rcases has : as.mapM f with s | cs <;> rw [has] at h
    · cases h
      obtain ⟨a', hmem, ha'⟩ := ih has
      exact ⟨a', List.mem_cons_of_mem _ hmem, ha'⟩
    · cases h

/-- A list is only refused for the size of its numbers. -/
theorem numbers_refusal {r : Refusal} (h : numbers n = .error r) : r = .tooLarge := by
  rw [numbers_eq_mapM] at h
  obtain ⟨k, -, hk⟩ := exists_of_mapM_eq_error h
  exact number_refusal hk

/-- **Texts are made just if the last of their numbers is computed.** -/
theorem exists_texts_iff_last :
    (∃ ts, texts n = .ok ts) ↔ n = 0 ∨ ∃ b, number (n + 1) = .ok b := by
  rw [exists_texts_iff]
  rcases n with - | n
  · simp
  · rw [or_iff_right (Nat.succ_ne_zero n)]
    constructor
    · exact fun h => h n (Nat.lt_succ_self n)
    · exact fun h i hi => exists_number_of_le h (by omega)

/-- The texts are those of the numbers from index two on. -/
theorem getElem?_texts {ts : List Text} (h : texts n = .ok ts) :
    ts.length = n ∧ ∀ i < n, ∃ b, number (i + 2) = .ok b ∧ ts[i]? = some b.text := by
  rw [texts_eq_ok_iff] at h
  have hlength := h.length_eq
  rw [List.length_range'] at hlength
  refine ⟨hlength.symm, fun i hi => ?_⟩
  have hlt : i < ts.length := by omega
  obtain ⟨b, hb, htext⟩ := h.get (i := i) (by rw [List.length_range']; omega) hlt
  refine ⟨b, ?_, ?_⟩
  · rw [← hb, List.get_eq_getElem, List.getElem_range', Nat.one_mul, Nat.add_comm]
  · rw [htext, List.getElem?_eq_getElem hlt, List.get_eq_getElem]

end DrawLang.Bernoulli
