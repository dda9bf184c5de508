/-
DrawLang/Proofs/Number/Display.lean

What a written number tells.  A decimal that is written without an exponent is a
number of the language (`Decimal.isNumber_positional`), and tells its sign and its
magnitude (`Decimal.eq_of_positional`).  A finite number is
shown by such a decimal, one that rounds to it (`exists_display`), and so two numbers
that are shown the same are equal (`beq_of_display`).
-/
import Mathlib.Data.Nat.Cast.Field
import DrawLang.Number.Written
import DrawLang.Proofs.Number.Shortest
import DrawLang.Proofs.Token.Lexeme

namespace DrawLang

open Text

namespace Decimal

/-! ### Rows of digits -/

theorem digitsValue_eq (t : Text) : digitsValue t = Nat.ofDigitChars 10 t 0 :=
  Nat.ofDigitChars_eq_foldl.symm

theorem digitsValue_append (t u : Text) :
    digitsValue (t ++ u) = 10 ^ u.length * digitsValue t + digitsValue u := by
  rw [digitsValue_eq, digitsValue_eq, digitsValue_eq, Nat.ofDigitChars_append,
    Nat.ofDigitChars_eq_ofDigitChars_zero]

theorem digitsValue_row (n : Nat) : digitsValue (row n) = n := by
  rw [digitsValue_eq]
  exact Nat.ofDigitChars_toDigits (by decide) (by decide)

theorem digitsValue_zeros (n : Nat) : digitsValue (List.replicate n '0') = 0 := by
  rw [digitsValue_eq, Nat.ofDigitChars_replicate_zero, Nat.mul_zero]

theorem isDigits_row (n : Nat) : IsDigits (row n) :=
  ⟨Nat.toDigits_ne_nil, fun _ hc => Nat.isDigit_of_mem_toDigits (by decide) (by decide) hc⟩

theorem isDigit_of_mem_zeros {n : Nat} {c : Char} (h : c ∈ List.replicate n '0') : c.isDigit := by
  rw [List.eq_of_mem_replicate h]
  rfl

/-! ### The written form -/

/-- What stands behind the sign of a decimal that is written without an exponent: digits,
with a point among them or without one, that have the magnitude of the decimal. -/
structure Spelled (d : Decimal) (whole fraction : Text) : Prop where
  before : IsDigits whole
  behind : ∀ c ∈ fraction, c.isDigit
  value : (digitsValue (whole ++ fraction) : ℚ) * 10 ^ (-fraction.length : Int) = d.magnitude

/-- A fraction with its point, if there is any. -/
def pointed : Text → Text
  | [] => []
  | c :: t => '.' :: c :: t

theorem pointed_of_ne_nil {t : Text} (h : t ≠ []) : pointed t = '.' :: t := by
  cases t with
  | nil => exact absurd rfl h
  | cons => rfl

/-- The digits, with zeros behind them. -/
theorem spelled_whole {d : Decimal} (hscale : 0 ≤ d.scale) :
    d.Spelled (row d.digits ++ List.replicate d.scale.toNat '0') [] := by
  have hrow := isDigits_row d.digits
  refine ⟨⟨List.append_ne_nil_of_left_ne_nil hrow.1 _, ?_⟩, nofun, ?_⟩
  · exact List.forall_mem_append.2 ⟨hrow.2, fun c hc => isDigit_of_mem_zeros hc⟩
  · rw [List.append_nil, digitsValue_append, digitsValue_row, digitsValue_zeros,
      List.length_replicate, magnitude]
    obtain ⟨k, hk⟩ := Int.eq_ofNat_of_zero_le hscale
    rw [hk]
    simp [mul_comm]

/-- The digits, some of them before the point and some behind it. -/
theorem spelled_split {d : Decimal} (hscale : d.scale < 0) (hplaces : 0 < d.places) :
    d.Spelled ((row d.digits).take d.places.toNat) ((row d.digits).drop d.places.toNat) ∧
      (row d.digits).drop d.places.toNat ≠ [] := by
  have hrow := isDigits_row d.digits
  have heq : d.places = (row d.digits).length + d.scale := rfl
  have hlength : ((row d.digits).drop d.places.toNat).length = -d.scale := by
    rw [List.length_drop]
    omega
  refine ⟨⟨⟨?_, ?_⟩, ?_, ?_⟩, ?_⟩
  · have hpos := List.length_pos_of_ne_nil hrow.1
    rw [ne_eq, ← List.length_eq_zero_iff, List.length_take]
    omega
  · exact fun c hc => hrow.2 c (List.mem_of_mem_take hc)
  · exact fun c hc => hrow.2 c (List.mem_of_mem_drop hc)
  · rw [List.take_append_drop, digitsValue_row, hlength, neg_neg]
    rfl
  · rw [ne_eq, ← List.length_eq_zero_iff]
    omega

/-- The digits behind a point and zeros. -/
theorem spelled_behind {d : Decimal} (hplaces : d.places ≤ 0) :
    d.Spelled ['0'] (List.replicate (-d.places).toNat '0' ++ row d.digits) := by
  have hrow := isDigits_row d.digits
  have heq : d.places = (row d.digits).length + d.scale := rfl
  have hlength : (List.replicate (-d.places).toNat '0' ++ row d.digits).length = -d.scale := by
    rw [List.length_append, List.length_replicate]
    omega
  refine ⟨⟨List.cons_ne_nil _ _, fun c hc => List.mem_singleton.1 hc ▸ rfl⟩, ?_, ?_⟩
  · exact List.forall_mem_append.2 ⟨fun c hc => isDigit_of_mem_zeros hc, hrow.2⟩
  · rw [hlength, neg_neg, digitsValue_append, digitsValue_append, digitsValue_row,
      digitsValue_zeros, magnitude]
    simp [digitsValue, digitValue]

/-- **Written without an exponent, a decimal has digits, and perhaps a point among them.** -/
theorem exists_spelled (d : Decimal) : ∃ whole fraction, d.Spelled whole fraction ∧
    d.positional [] = minus d.negative ++ (whole ++ pointed fraction) := by
  unfold positional
  split
  · rename_i hscale
    exact ⟨_, _, spelled_whole hscale, rfl⟩
  split
  · rename_i hscale hplaces
    obtain ⟨hspelled, hne⟩ := spelled_split (Int.not_le.1 hscale) hplaces
    exact ⟨_, _, hspelled, by rw [pointed_of_ne_nil hne]⟩
  · rename_i hplaces
    refine ⟨_, _, spelled_behind (Int.not_lt.1 hplaces), ?_⟩
    rw [pointed_of_ne_nil (List.append_ne_nil_of_right_ne_nil _ (isDigits_row d.digits).1)]
    rfl

/-! ### Reading it back -/

theorem sign_minus {t : Text} (negative : Bool) (ht : t.head?.any Char.isDigit) :
    sign (minus negative ++ t) = (negative, t) := by
  cases negative with
  | true => rfl
  | false =>
    show sign t = _
    unfold sign
    split
    · cases ht
    · cases ht
    · rfl

/-- **What is spelled is read back**, with its sign and its digits. -/
theorem Spelled.ofText?_eq {d : Decimal} {whole fraction : Text} (h : d.Spelled whole fraction)
    (negative : Bool) : ofText? (minus negative ++ (whole ++ pointed fraction)) =
      some ⟨negative, digitsValue (whole ++ fraction), -fraction.length⟩ := by
  have hstop : ∀ c ∈ (pointed fraction).head?, ¬ c.isDigit := by
    cases fraction with
    | nil => exact nofun
    | cons => rintro c ⟨⟩; decide
  have hwhole := digitsRest_eq h.before.2 hstop
  have htake : (whole ++ pointed fraction).takeWhile Char.isDigit = whole :=
    congrArg Prod.fst hwhole
  have hdrop : (whole ++ pointed fraction).dropWhile Char.isDigit = pointed fraction :=
    congrArg Prod.snd hwhole
  have hrest := @digitsRest_eq fraction [] h.behind fun c hc => by cases hc
  rw [List.append_nil] at hrest
  have htake' : fraction.takeWhile Char.isDigit = fraction := congrArg Prod.fst hrest
  have hdrop' : fraction.dropWhile Char.isDigit = [] := congrArg Prod.snd hrest
  rw [ofText?, sign_minus negative (h.before.head? _)]
  simp only [htake, hdrop]
  cases fraction with
  | nil => simp [pointed, h.before.1, exponent?]
  | cons c t => simp [pointed, htake', hdrop', h.before.1, exponent?]

/-- **Decimals that are written the same have the same sign and magnitude.** -/
theorem eq_of_positional {d d' : Decimal} (h : d.positional [] = d'.positional []) :
    d.negative = d'.negative ∧ d.magnitude = d'.magnitude := by
  obtain ⟨whole, fraction, hspelled, htext⟩ := d.exists_spelled
  obtain ⟨whole', fraction', hspelled', htext'⟩ := d'.exists_spelled
  have hread := hspelled.ofText?_eq d.negative
  rw [← htext, h, htext', hspelled'.ofText?_eq] at hread
  obtain ⟨hnegative, hdigits, hscale⟩ := Decimal.mk.inj (Option.some.inj hread)
  refine ⟨hnegative.symm, ?_⟩
  rw [← hspelled.value, ← hspelled'.value, hdigits, hscale]

/-- A decimal that is written without an exponent has the form of a number. -/
theorem isNumber_positional (d : Decimal) : IsNumber (d.positional []) := by
  obtain ⟨whole, fraction, hspelled, htext⟩ := d.exists_spelled
  refine ⟨minus d.negative, whole, pointed fraction, by rw [htext, List.append_assoc], ?_,
    hspelled.before, ?_⟩
  · cases d.negative
    · exact .inl rfl
    · exact .inr (.inr rfl)
  · cases fraction with
    | nil => exact .inl rfl
    | cons c t => exact .inr ⟨c :: t, rfl, List.cons_ne_nil _ _, hspelled.behind⟩

end Decimal

/-! ### Numbers for a reader -/

namespace Number

variable {n m : Number} {negative : Bool} {mantissa : Nat} {exponent : Int}

/-- A whole number has the sign and the magnitude of the number that equals it. -/
theorem exists_size {i : Int} (h : (Exact.finite negative mantissa exponent).whole? = some i) :
    ∃ size : Nat, i = signed negative size ∧ (size : ℚ) = mantissa * 2 ^ exponent := by
  rw [Exact.whole?] at h
  simp only [Nat.pow_eq] at h
  split at h
  · rename_i hexponent
    obtain ⟨k, hk⟩ := Int.eq_ofNat_of_zero_le hexponent
    refine ⟨_, (Option.some.inj h).symm, ?_⟩
    rw [hk]
    simp
  · rename_i hexponent
    obtain ⟨k, hk⟩ := Int.eq_ofNat_of_zero_le (by omega : 0 ≤ -exponent)
    obtain rfl : exponent = -k := by omega
    split at h
    · rename_i hdvd
      refine ⟨_, (Option.some.inj h).symm, ?_⟩
      rw [neg_neg, Int.toNat_natCast] at hdvd ⊢
      rw [Nat.cast_div (Nat.dvd_of_mod_eq_zero hdvd) (by positivity), zpow_neg, zpow_natCast,
        Nat.cast_pow, Nat.cast_two, div_eq_mul_inv]
    · cases h

theorem whole?_zero : (Exact.finite negative 0 exponent).whole? = some 0 := by
  unfold Exact.whole?
  cases negative <;> simp [signed]

/-- A signed size is a decimal without a fraction. -/
theorem integerText_signed (size : Nat) : integerText (signed negative size) =
    Decimal.positional ⟨negative && decide (size ≠ 0), size, 0⟩ [] := by
  have hsign : decide (signed negative size < 0) = (negative && decide (size ≠ 0)) := by
    cases negative
    · simp [signed]
    · simp [signed, Nat.pos_iff_ne_zero]
  have habs : (signed negative size).natAbs = size := by
    cases negative <;> simp [signed]
  rw [integerText, hsign, habs]
  simp [Decimal.positional]

/-- **A finite number is shown by a decimal that rounds to it**, with its sign if it is not zero. -/
theorem exists_display (h : n.exact = .finite negative mantissa exponent) :
    ∃ d : Decimal, n.display = d.positional [] ∧
      d.negative = (negative && decide (mantissa ≠ 0)) ∧ Covers mantissa exponent d.magnitude := by
  have hplain (hne : mantissa ≠ 0) : ∃ d : Decimal, n.plain = d.positional [] ∧
      d.negative = (negative && decide (mantissa ≠ 0)) ∧
        Covers mantissa exponent d.magnitude := by
    refine ⟨shortest .up negative mantissa exponent, ?_, ?_, ?_⟩
    · rw [plain, h]
    · simp [negative_shortest, hne]
    · exact covers_shortest (canonical_of_exact h) negative
  unfold display whole?
  rw [h]
  split
  · rename_i i hi
    obtain ⟨size, rfl, hsize⟩ := exists_size hi
    have hzero : size = 0 ↔ mantissa = 0 := by
      have hpos : (2 : ℚ) ^ exponent ≠ 0 := (zpow_pos two_pos _).ne'
      rw [← Nat.cast_eq_zero (R := ℚ), hsize, mul_eq_zero, or_iff_left hpos, Nat.cast_eq_zero]
    split
    · refine ⟨_, integerText_signed size, by simp [hzero], ?_⟩
      rw [Decimal.magnitude, zpow_zero, mul_one, hsize]
      exact covers_exact mantissa exponent
    · rename_i hbound
      refine hplain fun hm => hbound ?_
      rw [hzero.2 hm]
      cases negative <;> decide
  · rename_i hnone
    refine hplain fun hm => ?_
    rw [hm, whole?_zero] at hnone
    cases hnone

/-- A finite number is shown in the form of a number. -/
theorem isNumber_display (h : n.IsFinite) : IsNumber n.display := by
  obtain ⟨negative, mantissa, exponent, h⟩ := h
  obtain ⟨d, hd, -⟩ := exists_display h
  exact hd ▸ d.isNumber_positional

/-- **Numbers that are shown the same are equal.** -/
theorem beq_of_display (hn : n.IsFinite) (hm : m.IsFinite) (h : n.display = m.display) :
    n == m := by
  obtain ⟨negative, mantissa, exponent, hn⟩ := hn
  obtain ⟨negative', mantissa', exponent', hm⟩ := hm
  obtain ⟨d, hd, hsign, hcovers⟩ := exists_display hn
  obtain ⟨d', hd', hsign', hcovers'⟩ := exists_display hm
  obtain ⟨hnegative, hmagnitude⟩ := Decimal.eq_of_positional (hd.symm.trans (h.trans hd'))
  obtain ⟨rfl, rfl⟩ := Covers.unique (canonical_of_exact hn) (canonical_of_exact hm) hcovers
    (hmagnitude ▸ hcovers')
  by_cases hzero : mantissa = 0
  · subst hzero
    exact beq_of_zeros hn hm
  · obtain rfl : negative = negative' := by simpa [hsign, hsign', hzero] using hnegative
    obtain rfl := eq_of_exact hn hm
    exact beq_self ⟨_, _, _, hn⟩

end Number

end DrawLang
