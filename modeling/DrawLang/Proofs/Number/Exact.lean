/-
DrawLang/Proofs/Number/Exact.lean

The content of a number tells the number.  A finite number has a mantissa and an
exponent in normal form (`canonical_of_exact`), and two finite numbers with the same
sign, mantissa and exponent are the same (`eq_of_exact`).  Compared as numbers they are
equal (`beq_self`), and so are the two zeros (`beq_of_zeros`).
-/
import DrawLang.Number.Exact
import Mathlib.Tactic.Ring

namespace DrawLang.Number

/-- The number is neither infinite nor no number at all. -/
def IsFinite (n : Number) : Prop :=
  ∃ negative mantissa exponent, n.exact = .finite negative mantissa exponent

instance (n : Number) : Decidable n.IsFinite :=
  match h : n.exact with
  | .finite negative mantissa exponent => isTrue ⟨negative, mantissa, exponent, h⟩
  | .infinite _ => isFalse fun ⟨_, _, _, he⟩ => nomatch h.symm.trans he
  | .nan => isFalse fun ⟨_, _, _, he⟩ => nomatch h.symm.trans he

/-- The mantissas and exponents of numbers: the mantissa has a leading one in front of
its fifty-two bits, unless the exponent is the least. -/
structure Canonical (mantissa : Nat) (exponent : Int) : Prop where
  mantissa_lt : mantissa < 2 ^ 53
  exponent_ge : -1074 ≤ exponent
  exponent_le : exponent ≤ 971
  leading : mantissa < 2 ^ 52 → exponent = -1074

variable {n m : Number} {negative : Bool} {mantissa : Nat} {exponent : Int}

/-! ### Bits -/

/-- The exponent bits. -/
def scaleBits (n : Number) : Nat := n.toBits.toNat / 2 ^ 52 % 2 ^ 11

/-- The fraction bits. -/
def fractionBits (n : Number) : Nat := n.toBits.toNat % 2 ^ 52

/-- What the bits of a finite number are. -/
theorem bits_of_exact (h : n.exact = .finite negative mantissa exponent) :
    negative = decide (n.toBits.toNat / 2 ^ 63 = 1) ∧ n.scaleBits ≠ 2 ^ 11 - 1 ∧
      (n.scaleBits = 0 ∧ mantissa = n.fractionBits ∧ exponent = -1074 ∨
        n.scaleBits ≠ 0 ∧ mantissa = 2 ^ 52 + n.fractionBits ∧
          exponent = (n.scaleBits : Int) - 1075) := by
  unfold exact at h
  simp only [Nat.pow_eq] at h
  split at h
  · split at h <;> cases h
  · rename_i hscale
    split at h
    · rename_i hzero
      cases h
      exact ⟨rfl, hscale, .inl ⟨hzero, rfl, rfl⟩⟩
    · rename_i hzero
      cases h
      exact ⟨rfl, hscale, .inr ⟨hzero, rfl, rfl⟩⟩

/-- **Mantissas and exponents are in normal form.** -/
theorem canonical_of_exact (h : n.exact = .finite negative mantissa exponent) :
    Canonical mantissa exponent := by
  obtain ⟨-, hscale, hcases⟩ := bits_of_exact h
  have hfraction : n.fractionBits < 2 ^ 52 := Nat.mod_lt _ (by decide)
  have hlt : n.scaleBits < 2 ^ 11 := Nat.mod_lt _ (by decide)
  constructor <;> omega

/-- The bits tell the number. -/
theorem eq_of_toBits (h : n.toBits.toNat = m.toBits.toNat) : n = m := by
  obtain ⟨⟨bits, _⟩⟩ := n
  obtain ⟨⟨bits', _⟩⟩ := m
  obtain rfl : bits = bits' := UInt64.toNat_inj.1 h
  rfl

/-- **The content tells the number.** -/
theorem eq_of_exact (hn : n.exact = .finite negative mantissa exponent)
    (hm : m.exact = .finite negative mantissa exponent) : n = m := by
  obtain ⟨hsign, -, hcases⟩ := bits_of_exact hn
  obtain ⟨hsign', -, hcases'⟩ := bits_of_exact hm
  have hn := n.toBits.toNat_lt
  have hm := m.toBits.toNat_lt
  have hiff := decide_eq_decide.1 (hsign.symm.trans hsign')
  unfold scaleBits fractionBits at hcases hcases'
  exact eq_of_toBits (by omega)

/-! ### Comparing -/

open Float.Model UnpackedFloat

theorem toNat_unpackExponent (n : Number) :
    (@unpackExponent .binary64 n.toModel.toBits.toBitVec).toNat = n.scaleBits := by
  rw [unpackExponent, BitVec.toNat_cast, BitVec.extractLsb_toNat, Nat.shiftRight_eq_div_pow]
  rfl

theorem toNat_unpackMantissa (n : Number) :
    (@unpackMantissa .binary64 n.toModel.toBits.toBitVec).toNat = n.fractionBits := by
  rw [unpackMantissa, BitVec.toNat_cast, BitVec.extractLsb_toNat, Nat.shiftRight_eq_div_pow]
  show n.toBits.toNat / 2 ^ 0 % 2 ^ 52 = _
  rw [Nat.pow_zero, Nat.div_one]
  rfl

/-- The sign of the parts that are compared. -/
def signOf (negative : Bool) : Sign := if negative then .negative else .positive

theorem signOf_injective {negative negative' : Bool} (h : signOf negative = signOf negative') :
    negative = negative' := by
  cases negative <;> cases negative' <;> first | rfl | cases h

theorem ofBitVec_unpackSign (n : Number) :
    Sign.ofBitVec (@unpackSign .binary64 n.toModel.toBits.toBitVec) =
      signOf (n.toBits.toNat / 2 ^ 63 = 1) := by
  have hlt := n.toBits.toNat_lt
  have hbit :
      (@unpackSign .binary64 n.toModel.toBits.toBitVec).toNat = n.toBits.toNat / 2 ^ 63 := by
    unfold unpackSign
    rw [BitVec.toNat_cast, BitVec.extractLsb_toNat, Nat.shiftRight_eq_div_pow]
    show n.toBits.toNat / 2 ^ 63 % 2 ^ 1 = _
    omega
  have hiff : @unpackSign .binary64 n.toModel.toBits.toBitVec = 0#1 ↔
      ¬ n.toBits.toNat / 2 ^ 63 = 1 := by
    rw [← BitVec.toNat_inj, hbit]
    show _ / _ = 0 ↔ _
    omega
  unfold Sign.ofBitVec signOf
  by_cases hsign : n.toBits.toNat / 2 ^ 63 = 1
  · rw [if_neg (fun h => hiff.1 h hsign), if_pos (decide_eq_true hsign)]
  · rw [if_pos (hiff.2 hsign), if_neg (by simpa using hsign)]

theorem finite_congr {s s' : Sign} {m m' : Nat} {e e' : Int} (hs : s = s') (hm : m = m')
    (he : e = e') (hpos : 0 < m) (hpos' : 0 < m') :
    UnpackedFloat.finite s m e hpos = .finite s' m' e' hpos' := by
  subst hs hm he
  rfl

/-- Comparing takes the bits apart in the same way, and keeps the zeros to themselves. -/
theorem unpack_of_exact (h : n.exact = .finite negative mantissa exponent) :
    mantissa = 0 ∧ n.toModel.unpack = .zero (signOf negative) ∨
      ∃ hpos, n.toModel.unpack = .finite (signOf negative) mantissa exponent hpos := by
  obtain ⟨hsign, hscale, hcases⟩ := bits_of_exact h
  have hones : @unpackExponent .binary64 n.toModel.toBits.toBitVec ≠ -1#_ := by
    intro heq
    exact hscale (by rw [← toNat_unpackExponent, heq]; rfl)
  have hbits := ofBitVec_unpackSign n
  rw [← hsign] at hbits
  have hexponent : ((@unpackExponent .binary64 n.toModel.toBits.toBitVec).toNat : Int) =
      n.scaleBits := congrArg _ (toNat_unpackExponent n)
  have hfraction := toNat_unpackMantissa n
  have hlt : n.fractionBits < 2 ^ 52 := Nat.mod_lt _ (by decide)
  unfold Float.Model.unpack UnpackedFloat.unpack
  rw [if_neg hones]
  by_cases hzero : @unpackExponent .binary64 n.toModel.toBits.toBitVec = 0#_
  · have hscale0 : n.scaleBits = 0 := by rw [← toNat_unpackExponent, hzero]; rfl
    obtain ⟨-, hmantissa, hleast⟩ := hcases.resolve_right fun h => h.1 hscale0
    rw [if_pos hzero]
    by_cases hnil : @unpackMantissa .binary64 n.toModel.toBits.toBitVec = 0#_
    · rw [dif_pos hnil, hbits]
      refine .inl ⟨?_, rfl⟩
      rw [hmantissa, ← hfraction, hnil]
      rfl
    · have hpos : 0 < mantissa := by
        rw [Nat.pos_iff_ne_zero, hmantissa, ← hfraction]
        exact fun heq => hnil (BitVec.eq_of_toNat_eq heq)
      rw [dif_neg hnil]
      refine .inr ⟨hpos, finite_congr hbits (hfraction.trans hmantissa.symm) ?_ _ hpos⟩
      rw [hexponent, hscale0, hleast]
      rfl
  · have hscale0 : n.scaleBits ≠ 0 := fun heq =>
      hzero (BitVec.eq_of_toNat_eq ((toNat_unpackExponent n).trans heq))
    obtain ⟨-, hmantissa, hplace⟩ := hcases.resolve_left fun h => hscale0 h.1
    have hleading :
        (1#1 ++ @unpackMantissa .binary64 n.toModel.toBits.toBitVec).toNat = mantissa := by
      rw [BitVec.toNat_append, hfraction, hmantissa]
      show 1 <<< 52 ||| n.fractionBits = 2 ^ 52 + n.fractionBits
      rw [← Nat.shiftLeft_add_eq_or_of_lt hlt, Nat.shiftLeft_eq, Nat.one_mul]
    have hpos : 0 < mantissa := by omega
    rw [if_neg hzero]
    refine .inr ⟨hpos, finite_congr hbits hleading ?_ _ hpos⟩
    rw [hexponent, hplace]
    rfl

/-- **Finite numbers equal themselves.** -/
theorem beq_self (h : n.IsFinite) : n == n := by
  obtain ⟨negative, mantissa, exponent, hn⟩ := h
  show (n.toModel.unpack.compare n.toModel.unpack == some .eq) = true
  obtain ⟨-, hu⟩ | ⟨hpos, hu⟩ := unpack_of_exact hn
  · rw [hu]
    rfl
  · have hsame : (compare exponent exponent).then (compare mantissa mantissa) = .eq := by simp
    rw [hu]
    cases negative with
    | false =>
      show (some ((compare exponent exponent).then (compare mantissa mantissa)) == some .eq) = true
      rw [hsame]
      rfl
    | true =>
      show (some ((compare exponent exponent).then (compare mantissa mantissa)).swap ==
        some .eq) = true
      rw [hsame]
      rfl

/-- **The zeros equal each other.** -/
theorem beq_of_zeros {negative' : Bool} {exponent' : Int}
    (hn : n.exact = .finite negative 0 exponent) (hm : m.exact = .finite negative' 0 exponent') :
    n == m := by
  show (n.toModel.unpack.compare m.toModel.unpack == some .eq) = true
  obtain ⟨-, hu⟩ | ⟨hpos, -⟩ := unpack_of_exact hn
  · obtain ⟨-, hu'⟩ | ⟨hpos, -⟩ := unpack_of_exact hm
    · rw [hu, hu']
      rfl
    · exact absurd hpos (Nat.lt_irrefl 0)
  · exact absurd hpos (Nat.lt_irrefl 0)

end DrawLang.Number
