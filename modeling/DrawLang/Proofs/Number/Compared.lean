/-
DrawLang/Proofs/Number/Compared.lean

Which numbers are equal, and what is shown of them.  Numbers that are compared as equal are the
same number or two zeros (`beq_iff`).  The zeros are shown alike, and a finite number is never
shown like an infinity.  So numbers are shown the same just if they are equal, where neither is
undefined (`display_eq_iff`).
-/
import DrawLang.Proofs.Number.Display

namespace DrawLang.Number

open Float.Model UnpackedFloat

variable {n m : Number} {negative negative' : Bool} {t : Text}

/-! ### Comparing -/

/-- The number is not the undefined one. -/
def IsDefined (n : Number) : Prop := n.exact ≠ .nan

instance (n : Number) : Decidable n.IsDefined := inferInstanceAs (Decidable (_ ≠ _))

/-- The number is zero, of either sign. -/
def IsZero (n : Number) : Prop := ∃ negative exponent, n.exact = .finite negative 0 exponent

/-- A number that is defined is infinite or finite. -/
theorem IsDefined.cases (h : n.IsDefined) :
    (∃ negative, n.exact = .infinite negative) ∨ n.IsFinite := by
  rcases e : n.exact with _ | negative | ⟨negative, mantissa, exponent⟩
  · exact absurd e h
  · exact .inl ⟨negative, rfl⟩
  · exact .inr ⟨negative, mantissa, exponent, e⟩

theorem bits_of_infinite (h : n.exact = .infinite negative) :
    negative = decide (n.toBits.toNat / 2 ^ 63 = 1) ∧ n.scaleBits = 2 ^ 11 - 1 ∧
      n.fractionBits = 0 := by
  unfold exact at h
  simp only [Nat.pow_eq] at h
  split at h
  · rename_i hscale
    split at h
    · rename_i hfraction
      cases h
      exact ⟨rfl, hscale, hfraction⟩
    · cases h
  · split at h <;> cases h

/-- There is one infinity of each sign. -/
theorem eq_of_infinite (hn : n.exact = .infinite negative) (hm : m.exact = .infinite negative) :
    n = m := by
  obtain ⟨hsign, hscale, hfraction⟩ := bits_of_infinite hn
  obtain ⟨hsign', hscale', hfraction'⟩ := bits_of_infinite hm
  have hn := n.toBits.toNat_lt
  have hm := m.toBits.toNat_lt
  have hiff := decide_eq_decide.1 (hsign.symm.trans hsign')
  unfold scaleBits at hscale hscale'
  unfold fractionBits at hfraction hfraction'
  exact eq_of_toBits (by omega)

theorem unpack_infinite (h : n.exact = .infinite negative) :
    n.toModel.unpack = .infinity (signOf negative) := by
  obtain ⟨hsign, hscale, hfraction⟩ := bits_of_infinite h
  have hones : @unpackExponent .binary64 n.toModel.toBits.toBitVec = -1#_ := by
    rw [← BitVec.toNat_inj, toNat_unpackExponent, hscale]
    rfl
  have hnil : @unpackMantissa .binary64 n.toModel.toBits.toBitVec = 0#_ := by
    rw [← BitVec.toNat_inj, toNat_unpackMantissa, hfraction]
    rfl
  unfold Float.Model.unpack UnpackedFloat.unpack
  rw [if_pos hones, if_pos hnil, ofBitVec_unpackSign, ← hsign]

/-- Only zeros compare as equal without being the same. -/
theorem eq_of_compare {u v : UnpackedFloat} (h : u.compare v = some .eq) :
    u = v ∨ (∃ s, u = .zero s) ∧ ∃ s, v = .zero s := by
  have hfinite {e e' : Int} {m m' : Nat} (h : (compare e e').then (compare m m') = .eq) :
      e = e' ∧ m = m' := by
    rwa [Ordering.then_eq_eq, compare_eq_iff_eq, compare_eq_iff_eq] at h
  rcases u with (_ | _) | _ | (_ | _) | ⟨_ | _, m, e, hpos⟩ <;>
    rcases v with (_ | _) | _ | (_ | _) | ⟨_ | _, m', e', hpos'⟩ <;>
    first
      | exact .inl rfl
      | exact .inr ⟨⟨_, rfl⟩, _, rfl⟩
      | cases h
      | skip
  -- what is left are finite numbers of one sign
  · obtain ⟨rfl, rfl⟩ := hfinite (Ordering.swap_eq_eq.1 (Option.some.inj h))
    exact .inl rfl
  · obtain ⟨rfl, rfl⟩ := hfinite (Option.some.inj h)
    exact .inl rfl

theorem compare_infinity (sign : Sign) :
    (UnpackedFloat.infinity sign).compare (.infinity sign) = some .eq := by
  cases sign <;> rfl

theorem isZero_of_unpack (hn : n.IsDefined) {sign : Sign} (h : n.toModel.unpack = .zero sign) :
    n.IsZero := by
  rcases hn.cases with ⟨negative, hn⟩ | ⟨negative, mantissa, exponent, hn⟩
  · cases h.symm.trans (unpack_infinite hn)
  · obtain ⟨rfl, -⟩ | ⟨_, hu⟩ := unpack_of_exact hn
    · exact ⟨negative, exponent, hn⟩
    · cases h.symm.trans hu

/-- The parts that are compared tell a finite number. -/
theorem eq_of_unpack_finite (hn : n.IsFinite) (hm : m.IsFinite)
    (h : n.toModel.unpack = m.toModel.unpack) : n = m := by
  obtain ⟨negative, mantissa, exponent, hn⟩ := hn
  obtain ⟨negative', mantissa', exponent', hm⟩ := hm
  have hleading := (canonical_of_exact hn).leading
  have hleading' := (canonical_of_exact hm).leading
  rcases unpack_of_exact hn with ⟨rfl, hu⟩ | ⟨_, hu⟩ <;>
    rcases unpack_of_exact hm with ⟨rfl, hu'⟩ | ⟨_, hu'⟩ <;>
    rw [hu, hu'] at h
  · obtain rfl := signOf_injective (UnpackedFloat.zero.inj h)
    obtain rfl := hleading (by decide)
    obtain rfl := hleading' (by decide)
    exact eq_of_exact hn hm
  · cases h
  · cases h
  · obtain ⟨hsign, rfl, rfl⟩ := UnpackedFloat.finite.inj h
    obtain rfl := signOf_injective hsign
    exact eq_of_exact hn hm

/-- The parts that are compared tell the number. -/
theorem eq_of_unpack (hn : n.IsDefined) (hm : m.IsDefined)
    (h : n.toModel.unpack = m.toModel.unpack) : n = m := by
  have hne {a b : Number} {negative : Bool} (ha : a.exact = .infinite negative) (hb : b.IsFinite) :
      a.toModel.unpack ≠ b.toModel.unpack := by
    obtain ⟨_, _, _, hb⟩ := hb
    rw [unpack_infinite ha]
    rcases unpack_of_exact hb with ⟨-, hu⟩ | ⟨_, hu⟩ <;> rw [hu] <;> nofun
  rcases hn.cases with ⟨negative, hn⟩ | hn <;> rcases hm.cases with ⟨negative', hm⟩ | hm
  · rw [unpack_infinite hn, unpack_infinite hm] at h
    obtain rfl := signOf_injective (UnpackedFloat.infinity.inj h)
    exact eq_of_infinite hn hm
  · exact absurd h (hne hn hm)
  · exact absurd h.symm (hne hm hn)
  · exact eq_of_unpack_finite hn hm h

/-- **Numbers are equal if they are the same, or both are zero.** -/
theorem beq_iff (hn : n.IsDefined) (hm : m.IsDefined) :
    (n == m) = true ↔ n = m ∨ n.IsZero ∧ m.IsZero := by
  have hcompare : (n == m) = true ↔ n.toModel.unpack.compare m.toModel.unpack = some .eq := by
    show (n.toModel.unpack.compare m.toModel.unpack == some .eq) = true ↔ _
    exact beq_iff_eq
  constructor
  · intro h
    rcases eq_of_compare (hcompare.1 h) with h | ⟨⟨_, h⟩, _, h'⟩
    · exact .inl (eq_of_unpack hn hm h)
    · exact .inr ⟨isZero_of_unpack hn h, isZero_of_unpack hm h'⟩
  · rintro (rfl | ⟨⟨_, _, hn⟩, _, _, hm⟩)
    · rcases hn.cases with ⟨negative, hn⟩ | hn
      · rw [hcompare, unpack_infinite hn, compare_infinity]
      · exact beq_self hn
    · exact beq_of_zeros hn hm

/-! ### What is shown -/

theorem display_infinite (h : n.exact = .infinite negative) :
    n.display = Decimal.minus negative ++ "inf".toList := by
  rw [display, whole?, h]
  show n.plain = _
  rw [plain, h]

theorem IsZero.display (h : n.IsZero) : n.display = ['0'] := by
  obtain ⟨negative, exponent, h⟩ := h
  rw [Number.display, whole?, h, whole?_zero]
  rfl

theorem display_infinite_ne (hn : n.exact = .infinite negative) (hm : m.IsFinite) :
    n.display ≠ m.display := by
  intro h
  have hdigit := (isNumber_display hm).any_isDigit
  rw [← h, display_infinite hn] at hdigit
  cases negative <;> exact absurd hdigit (by decide)

/-- **Numbers are shown the same just if they are equal.** -/
theorem display_eq_iff (hn : n.IsDefined) (hm : m.IsDefined) :
    n.display = m.display ↔ (n == m) = true := by
  constructor
  · intro h
    rcases hn.cases with ⟨negative, hn'⟩ | hn' <;> rcases hm.cases with ⟨negative', hm'⟩ | hm'
    · rw [display_infinite hn', display_infinite hm'] at h
      obtain rfl : negative = negative' := by
        cases negative <;> cases negative' <;> first | rfl | exact absurd h (by decide)
      exact (beq_iff hn hm).2 (.inl (eq_of_infinite hn' hm'))
    · exact absurd h (display_infinite_ne hn' hm')
    · exact absurd h.symm (display_infinite_ne hm' hn')
    · exact beq_of_display hn' hm' h
  · intro h
    rcases (beq_iff hn hm).1 h with rfl | ⟨hn, hm⟩
    · rfl
    · rw [hn.display, hm.display]

end DrawLang.Number
