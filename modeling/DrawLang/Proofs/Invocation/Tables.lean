/-
DrawLang/Proofs/Invocation/Tables.lean

All ways to tabulate Bernoulli numbers agree: number by number over a table for each, as a list
over one table, and as the texts that `ada-lovelace` makes over a table that grows by one slot
for each of them.

Main statement: `tables_agree`.
-/
import DrawLang.Proofs.Bernoulli.Lists
import DrawLang.Proofs.Invocation.Blame

namespace DrawLang

open DrawLang.Bernoulli

/-- With no request pending a count comes to the texts of as many numbers, or its argument is
blamed. -/
theorem Action.adaLovelace_of_calm {β ε : Type} {site : Site} {v : Value β} {m : Machine β ε}
    {n : Nat} (hcount : site.count 0 v = .ok n) (hm : m.cancelled = false) :
    (∀ ts, texts n = .ok ts → adaLovelace site v m = .ok (.sequence (ts.map .string)) m) ∧
      ∀ r, texts n = .error r →
        adaLovelace site v m = .error (site.blameArgument 0 .smallerCount (Decimal.row n)) m := by
  have hsettle :
      adaLovelace site v m = check ((Invocation.adaLovelace v).plan site >>= Prod.snd) m :=
    (congrFun (perform_eq_settle site (.adaLovelace v)) m).trans (settle_of_calm site _ hm)
  rw [hsettle, Invocation.plan, hcount]
  show (∀ ts, _ → check ((pure n >>= _) >>= _) m = _) ∧ ∀ r, _ → check ((pure n >>= _) >>= _) m = _
  rw [pure_bind, pure_bind]
  refine ⟨fun ts hts => ?_, fun r hr => ?_⟩
  · rw [hts]
    rfl
  · obtain rfl := texts_refusal hr
    rw [hr]
    rfl

/-- **All ways to tabulate Bernoulli numbers agree.**  A list is made just if its last number is
computed, and has the numbers that are computed one by one.  Nothing is ever refused but for the
size of a number, no slot is missing, and where a number is refused all later ones are.  A value
that counts to `n` comes to texts just if there is nothing to make or the last of their numbers
is computed, and then these are the texts of the numbers from index two on; otherwise the value
is blamed for its number. -/
theorem tables_agree (n : Nat) :
    ((∃ bs, numbers n = .ok bs) ↔ ∃ b, number n = .ok b) ∧
    (∀ bs, numbers n = .ok bs →
      bs.length = n + 1 ∧ ∀ k ≤ n, ∃ b, bs[k]? = some b ∧ number k = .ok b) ∧
    (∀ r, number n = .error r ∨ numbers n = .error r ∨ texts n = .error r → r = .tooLarge) ∧
    (∀ later, n ≤ later → number n = .error .tooLarge → number later = .error .tooLarge) ∧
    ∀ {β ε : Type} (site : Site) (v : Value β) (m : Machine β ε), site.count 0 v = .ok n →
      m.cancelled = false →
      ((∃ w m', Action.adaLovelace site v m = .ok w m') ↔ n = 0 ∨ ∃ b, number (n + 1) = .ok b) ∧
      (∀ w m', Action.adaLovelace site v m = .ok w m' → m' = m ∧
        ∃ ts : List Text, w = .sequence (ts.map .string) ∧ ts.length = n ∧
          ∀ i, 1 ≤ i → i ≤ n → ∃ b, number (i + 1) = .ok b ∧ ts[i - 1]? = some b.text) ∧
      (¬ (n = 0 ∨ ∃ b, number (n + 1) = .ok b) →
        ∃ stop, Action.adaLovelace site v m = .error stop m ∧
          stop.IsAt site.source (site.argument 0) .number) := by
  refine ⟨exists_numbers_iff, fun bs h => getElem?_numbers h, ?_, ?_, ?_⟩
  · rintro r (h | h | h)
    · exact number_refusal h
    · exact numbers_refusal h
    · exact texts_refusal h
  · exact fun later hle h => number_refused_of_le h hle
  · intro β ε site v m hcount hm
    obtain ⟨hmade, hrefused⟩ := Action.adaLovelace_of_calm hcount hm
    rw [← exists_texts_iff_last]
    rcases hts : texts n with r | ts
    · rw [hrefused r hts]
      refine ⟨⟨nofun, nofun⟩, nofun, fun _ => ⟨_, rfl, ?_⟩⟩
      exact Stop.isAt_at _ _ _ _
    · rw [hmade ts hts]
      refine ⟨⟨fun _ => ⟨ts, rfl⟩, fun _ => ⟨_, _, rfl⟩⟩, ?_, fun hnot => absurd ⟨ts, rfl⟩ hnot⟩
      rintro _ _ ⟨⟩
      obtain ⟨hlength, hitems⟩ := getElem?_texts hts
      refine ⟨rfl, ts, rfl, hlength, fun i hi hle => ?_⟩
      obtain ⟨b, hb, htext⟩ := hitems (i - 1) (by omega)
      exact ⟨b, by rwa [show i + 1 = i - 1 + 2 by omega], htext⟩

/-- Three texts are made, of the numbers from index two to index four.  Ninety-eight are too
many, as the number of index ninety-nine is refused, and so is that of index one hundred. -/
theorem tables_agree_few_and_many :
    let site : Site := ⟨"ada-lovelace\n(x)".toList, ⟨0, 12⟩, [14]⟩
    let m : Machine Unit Unit := .initial ()
    (∃ b, number 4 = .ok b) ∧ number 99 = .error .tooLarge ∧ number 100 = .error .tooLarge ∧
      (∃ bs, numbers 4 = .ok bs ∧ bs.length = 5) ∧ (¬ ∃ bs, numbers 99 = .ok bs) ∧
      site.count 0 (.number 3 : Value Unit) = .ok 3 ∧
      site.count 0 (.number 98 : Value Unit) = .ok 98 ∧ m.cancelled = false ∧
      (∃ ts : List Text,
        Action.adaLovelace site (.number 3) m = .ok (.sequence (ts.map .string)) m ∧
        ts.length = 3) ∧
      ∃ f, Action.adaLovelace site (.number 98) m = .error (.fault f) m ∧ f.kind = .number ∧
        f.line = 2 ∧ f.column = 2 := by
  intro site m
  have hfour : ∃ b, number 4 = .ok b := ⟨⟨-1, 30⟩, by decide +kernel⟩
  have hmany : ¬ ∃ b, number 99 = .ok b := fun ⟨b, hb⟩ => number_ninetyNine_refused b hb
  have hrefused : number 99 = .error .tooLarge := (exists_number_or_refused 99).resolve_left hmany
  have hthree : site.count 0 (.number 3 : Value Unit) = .ok 3 := by decide +kernel
  have hninetyEight : site.count 0 (.number 98 : Value Unit) = .ok 98 := by decide +kernel
  obtain ⟨hlist, hitems, -⟩ := tables_agree 4
  obtain ⟨hlist', -, -, hlater, -⟩ := tables_agree 99
  obtain ⟨-, -, -, -, hfew⟩ := tables_agree 3
  obtain ⟨-, -, -, -, htoo⟩ := tables_agree 98
  obtain ⟨hmade, htexts, -⟩ := hfew site (.number 3) m hthree rfl
  obtain ⟨-, -, hblamed⟩ := htoo site (.number 98) m hninetyEight rfl
  obtain ⟨bs, hbs⟩ := hlist.2 hfour
  obtain ⟨w, m', hw⟩ := hmade.2 (.inr hfour)
  obtain ⟨rfl, ts, rfl, hlength, -⟩ := htexts w m' hw
  have hno : ¬ (98 = 0 ∨ ∃ b, number 99 = .ok b) := by
    rintro (h | h)
    · exact absurd h (by decide)
    · exact hmany h
  obtain ⟨stop, hstop, hat, -⟩ := hblamed hno
  obtain ⟨f, rfl, hkind, hline, hcolumn⟩ := hat ⟨2, 2, ['x']⟩ (by decide)
  exact ⟨hfour, hrefused, hlater 100 (by decide) hrefused, ⟨bs, hbs, (hitems bs hbs).1⟩,
    fun h => hmany (hlist'.1 h), hthree, hninetyEight, rfl, ⟨ts, hw, hlength⟩, f, hstop, hkind,
    hline, hcolumn⟩

end DrawLang
