/-
DrawLang/Proofs/Number/Whole.lean

Naturals as numbers.  A natural below `2 ^ 53` is turned into a number by shifting it up until
its leading one stands in front of fifty-two bits, and by multiplying with one.  Neither rounds
anything, so the number equals the natural that it was made of.

Main statement: `whole?_ofNat`.
-/
import DrawLang.Proofs.Number.Exact

namespace DrawLang.Number

open Float.Model UnpackedFloat

variable {m k n : Nat} {e : Int}

/-! ### Rounding -/

/-- A mantissa with its leading one in place. -/
def IsFull (m : Nat) : Prop := 2 ^ 52 ≤ m ∧ m < 2 ^ 53

theorem IsFull.pos (h : IsFull m) : 0 < m := by
  unfold IsFull at h
  omega

theorem IsFull.sub_lt (h : IsFull m) : m - 2 ^ 52 < 2 ^ 52 := by
  unfold IsFull at h
  omega

theorem IsFull.log2_mul (h : IsFull m) (k : Nat) : (m * 2 ^ k).log2 = 52 + k := by
  have hne : m * 2 ^ k ≠ 0 := (Nat.mul_pos h.pos (Nat.two_pow_pos k)).ne'
  refine (Nat.log2_eq_iff hne).2 ⟨?_, ?_⟩
  · rw [Nat.pow_add]
    exact Nat.mul_le_mul_right _ h.1
  · rw [show 52 + k + 1 = 53 + k by omega, Nat.pow_add]
    exact Nat.mul_lt_mul_of_pos_right h.2 (Nat.two_pow_pos k)

/-- Zeros that are shifted out leave nothing behind. -/
theorem shiftRight_exact (m k : Nat) :
    ExtendedMantissa.ofMantissaAndAccuracy (m * 2 ^ k) .exact >>> k
      = ExtendedMantissa.ofMantissaAndAccuracy m .exact := by
  induction k generalizing m with
  | zero => rw [Nat.pow_zero, Nat.mul_one]; rfl
  | succ k ih =>
    have hshift : m * 2 ^ (k + 1) = m * 2 * 2 ^ k := by rw [Nat.pow_succ]; ring
    change (ExtendedMantissa.ofMantissaAndAccuracy (m * 2 ^ (k + 1)) .exact >>> k).shiftRightOne = _
    rw [hshift, ih]
    simp [ExtendedMantissa.shiftRightOne, ExtendedMantissa.ofMantissaAndAccuracy]

/-- Where a full mantissa is to stand, it comes to stand. -/
theorem shiftToTargetExponent_full (h : IsFull m) (he : -1074 ≤ e) (k : Nat) :
    shiftToTargetExponent .binary64 (m * 2 ^ k) (e - k) .exact
      = (ExtendedMantissa.ofMantissaAndAccuracy m .exact, e) := by
  have htarget : Format.binary64.targetExponent (totalExponent (m * 2 ^ k) (e - k)) = e := by
    unfold Format.targetExponent totalExponent
    rw [h.log2_mul]
    show max (((52 + k : Nat) : Int) + 1 + (e - k) - 53) (-1074) = e
    omega
  have hshift : (e - (e - k)).toNat = k := by omega
  rw [shiftToTargetExponent, htarget, shiftToExponent, hshift, shiftRight_exact]
  simp

/-- Rounding shifts the mantissa, rounds it, and shifts it again. -/
theorem roundWithAccuracy_of_shift {first second : ExtendedMantissa × Int} {accuracy : Accuracy}
    (hfirst : shiftToTargetExponent .binary64 m e accuracy = first)
    (hsecond : shiftToTargetExponent .binary64 first.1.roundedMantissa first.2 .exact = second)
    (hpos : 0 < second.1.mantissa) (sign : Sign) :
    roundWithAccuracy .binary64 sign m e accuracy
      = .finite sign second.1.mantissa second.2 hpos := by
  subst hfirst hsecond
  exact dif_neg hpos.ne'

/-- **A full mantissa is not rounded**, whatever zeros are behind it. -/
theorem roundWithAccuracy_full (h : IsFull m) (he : -1074 ≤ e) (sign : Sign) (k : Nat) :
    roundWithAccuracy .binary64 sign (m * 2 ^ k) (e - k) .exact = .finite sign m e h.pos := by
  have hagain := shiftToTargetExponent_full h he 0
  rw [Nat.pow_zero, Nat.mul_one, Int.natCast_zero, Int.sub_zero] at hagain
  exact roundWithAccuracy_of_shift (shiftToTargetExponent_full h he k) hagain h.pos sign

/-! ### Bits -/

/-- A full mantissa is packed without its leading one, and its exponent from the bias on. -/
theorem pack_full (h : IsFull m) (he : -1074 ≤ e) (he' : e ≤ 971) :
    UnpackedFloat.pack .binary64 (.finite .positive m e h.pos)
      = packComponents .binary64 .positive (BitVec.ofNat 11 (e + 1075).toNat)
          (BitVec.ofNat 52 m) := by
  have hlog : m.log2 = 52 := by
    have := h.log2_mul 0
    rwa [Nat.pow_zero, Nat.mul_one] at this
  have hbiased : e + (Format.binary64.exponentBias : Int) + (52 : Nat) = e + 1075 := by
    show e + 1023 + 52 = e + 1075
    omega
  have hlt : ¬ 2 ^ 11 ≤ (e + 1075).toNat + 1 := by omega
  unfold UnpackedFloat.pack
  simp only [hbiased]
  rw [if_neg hlt, if_pos (by rw [hlog]; rfl)]

theorem toNat_exponentBits (he : -1074 ≤ e) (he' : e ≤ 971) :
    (BitVec.ofNat 11 (e + 1075).toNat).toNat = (e + 1075).toNat := by
  rw [BitVec.toNat_ofNat]
  exact Nat.mod_eq_of_lt (by omega)

theorem toNat_fractionBits (h : IsFull m) : (BitVec.ofNat 52 m).toNat = m - 2 ^ 52 := by
  obtain ⟨hge, hlt⟩ := h
  rw [BitVec.toNat_ofNat]
  omega

/-- The sign stands in front of the exponent bits. -/
theorem sign_packComponents (sign : Sign) (exponent : BitVec 11) (mantissa : BitVec 52) :
    Sign.ofBitVec (unpackSign (packComponents .binary64 sign exponent mantissa)) = sign := by
  unfold unpackSign packComponents BitVec.extractLsb
  rw [BitVec.extractLsb'_append_eq_of_le (by decide),
    BitVec.extractLsb'_append_eq_of_le (by decide)]
  cases sign <;> rfl

/-- Unpacking puts a leading one in front of the fraction bits of a normal number. -/
theorem unpack_of_normal {bits : BitVec 64} (hones : @unpackExponent .binary64 bits ≠ -1#_)
    (hzero : @unpackExponent .binary64 bits ≠ 0#_) {sign : Sign} (hm : 0 < m)
    (hsign : Sign.ofBitVec (@unpackSign .binary64 bits) = sign)
    (hmantissa : (1#1 ++ @unpackMantissa .binary64 bits).toNat = m)
    (hexponent : ((@unpackExponent .binary64 bits).toNat : Int) - 1075 = e) :
    UnpackedFloat.unpack .binary64 bits = .finite sign m e hm := by
  subst hsign hmantissa hexponent
  unfold UnpackedFloat.unpack
  rw [if_neg hones, if_neg hzero]
  rfl

/-- Packing a full mantissa is undone by unpacking it. -/
theorem unpack_pack_full (h : IsFull m) (he : -1074 ≤ e) (he' : e ≤ 971) :
    (Float.Model.pack (.finite .positive m e h.pos)).unpack = .finite .positive m e h.pos := by
  have hexponent := toNat_exponentBits he he'
  show UnpackedFloat.unpack .binary64 (UnpackedFloat.pack .binary64 _) = _
  rw [pack_full h he he']
  refine unpack_of_normal ?_ ?_ h.pos (sign_packComponents _ _ _) ?_ ?_
  · rw [unpackExponent_packComponents]
    intro heq
    rw [heq] at hexponent
    change 2047 = _ at hexponent
    omega
  · rw [unpackExponent_packComponents]
    intro heq
    rw [heq] at hexponent
    change 0 = _ at hexponent
    omega
  · rw [unpackMantissa_packComponents, BitVec.toNat_append, toNat_fractionBits h]
    show 1 <<< 52 ||| (m - 2 ^ 52) = m
    rw [← Nat.shiftLeft_add_eq_or_of_lt h.sub_lt, Nat.shiftLeft_eq]
    exact Nat.add_sub_of_le h.1
  · rw [unpackExponent_packComponents, hexponent]
    omega

/-- The content of a normal number that is not negative. -/
theorem exact_of_word {x : Number} {scale fraction : Nat}
    (hword : x.toBits.toNat = scale * 2 ^ 52 + fraction) (hpos : 0 < scale) (hlt : scale < 2047)
    (hfraction : fraction < 2 ^ 52) :
    exact x = .finite false (2 ^ 52 + fraction) ((scale : Int) - 1075) := by
  have hsign : (scale * 2 ^ 52 + fraction) / 2 ^ 63 ≠ 1 := by omega
  have hscale : (scale * 2 ^ 52 + fraction) / 2 ^ 52 % 2 ^ 11 = scale := by omega
  have hrest : (scale * 2 ^ 52 + fraction) % 2 ^ 52 = fraction := by omega
  simp only [exact, hword, Nat.pow_eq, hscale, hrest, hsign]
  rw [if_neg (by omega), if_neg (by omega)]
  rfl

/-- A packed number has the content that was packed. -/
theorem exact_pack_full (h : IsFull m) (he : -1074 ≤ e) (he' : e ≤ 971) :
    exact (.ofModel (.pack (.finite .positive m e h.pos))) = .finite false m e := by
  have hword : (Float.toBits (.ofModel (.pack (.finite .positive m e h.pos)))).toNat
      = (e + 1075).toNat * 2 ^ 52 + (m - 2 ^ 52) := by
    show (UnpackedFloat.pack .binary64 (.finite .positive m e h.pos)).toNat = _
    rw [pack_full h he he', packComponents, BitVec.toNat_append, BitVec.toNat_append,
      toNat_exponentBits he he', toNat_fractionBits h]
    show (0 <<< 11 ||| (e + 1075).toNat) <<< 52 ||| (m - 2 ^ 52) = _
    rw [Nat.zero_shiftLeft, Nat.zero_or, ← Nat.shiftLeft_add_eq_or_of_lt h.sub_lt,
      Nat.shiftLeft_eq]
  have hmantissa : 2 ^ 52 + (m - 2 ^ 52) = m := Nat.add_sub_of_le h.1
  have hexponent : ((e + 1075).toNat : Int) - 1075 = e := by omega
  rw [exact_of_word hword (by omega) (by omega) h.sub_lt, hmantissa, hexponent]

/-! ### Naturals -/

/-- How far a natural is shifted up. -/
def headroom (n : Nat) : Nat := 52 - n.log2

theorem isFull_shifted (hpos : 0 < n) (hlt : n < 2 ^ 53) : IsFull (n * 2 ^ headroom n) := by
  have hlog : n.log2 < 53 := (Nat.log2_lt hpos.ne').2 hlt
  have hsum : n.log2 + headroom n = 52 := by unfold headroom; omega
  constructor
  · rw [← hsum, Nat.pow_add]
    exact Nat.mul_le_mul_right _ (Nat.log2_self_le hpos.ne')
  · rw [show 53 = n.log2 + 1 + headroom n by omega, Nat.pow_add]
    exact Nat.mul_lt_mul_of_pos_right Nat.lt_log2_self (Nat.two_pow_pos _)

/-- A small natural is shifted up, and not rounded. -/
theorem ofNat_unpacked (hpos : 0 < n) (hlt : n < 2 ^ 53) :
    UnpackedFloat.ofNat .binary64 n
      = .finite .positive (n * 2 ^ headroom n) (-headroom n) (isFull_shifted hpos hlt).pos := by
  have hfull := isFull_shifted hpos hlt
  have hlog : n.log2 < 53 := (Nat.log2_lt hpos.ne').2 hlt
  have hsmall : headroom n ≤ 52 := Nat.sub_le _ _
  have hcompare : compare (n : Int) 0 = .gt := by
    rw [Int.compare_eq_gt]
    omega
  have htarget : Format.binary64.targetExponent (totalExponent n 0) = -headroom n := by
    show max ((n.log2 : Int) + 1 + 0 - 53) (-1074) = -(headroom n : Int)
    unfold headroom
    omega
  have hdecrease : decreaseExponent n 0 (-(headroom n : Int))
      = (n * 2 ^ headroom n, -(headroom n : Int)) := by
    rw [decreaseExponent, show ((0 : Int) - -headroom n).toNat = headroom n by omega,
      Nat.shiftLeft_eq, Int.zero_sub]
  have hround := roundWithAccuracy_full hfull (e := -headroom n) (by omega) .positive 0
  rw [Nat.pow_zero, Nat.mul_one, Int.natCast_zero, Int.sub_zero] at hround
  unfold UnpackedFloat.ofNat UnpackedFloat.ofInt UnpackedFloat.normalize
  rw [hcompare]
  show (fun r : Nat × Int => roundWithAccuracy .binary64 .positive r.1 r.2 .exact)
    (decreaseExponent n 0 (Format.binary64.targetExponent (totalExponent n 0))) = _
  rw [htarget, hdecrease]
  exact hround

theorem ofNat_eq_mul (hlt : n < 2 ^ 53) :
    Float.ofNat n = n.toUInt64.toFloat * Float.ofBits 0x3FF0000000000000 := by
  show Float.ofScientific n false 0 = _
  unfold Float.ofScientific
  rw [dif_pos ⟨hlt, by decide⟩]
  rfl

/-- The content of a small natural as a number. -/
theorem exact_ofNat (hpos : 0 < n) (hlt : n < 2 ^ 53) :
    exact (Float.ofNat n) = .finite false (n * 2 ^ headroom n) (-headroom n) := by
  have hfull := isFull_shifted hpos hlt
  have hsmall : headroom n ≤ 52 := Nat.sub_le _ _
  have hword : n.toUInt64.toNat = n := Nat.mod_eq_of_lt (by omega)
  have hnatural : n.toUInt64.toFloat.toModel.unpack
      = .finite .positive (n * 2 ^ headroom n) (-headroom n) hfull.pos := by
    show (Float.Model.pack (UnpackedFloat.ofNat .binary64 n.toUInt64.toNat)).unpack = _
    rw [hword, ofNat_unpacked hpos hlt, unpack_pack_full hfull (by omega) (by omega)]
  have hone : (Float.ofBits 0x3FF0000000000000).toModel.unpack
      = .finite .positive (2 ^ 52) (-52) (by decide) := rfl
  rw [ofNat_eq_mul hlt]
  show exact (.ofModel (.pack (UnpackedFloat.mul .binary64 n.toUInt64.toFloat.toModel.unpack
    (Float.ofBits 0x3FF0000000000000).toModel.unpack))) = _
  rw [hnatural, hone]
  show exact (.ofModel (.pack (roundWithAccuracy .binary64 .positive (n * 2 ^ headroom n * 2 ^ 52)
    (-headroom n - (52 : Nat)) .exact))) = _
  rw [roundWithAccuracy_full hfull (by omega), exact_pack_full hfull (by omega) (by omega)]

/-- Shifting up and counting down the exponent goes round in a circle. -/
theorem Exact.whole?_shifted (n k : Nat) :
    (Exact.finite false (n * 2 ^ k) (-k)).whole? = some (n : Int) := by
  rcases k with - | k
  · show some ((n * 2 ^ 0 * 2 ^ 0 : Nat) : Int) = some (n : Int)
    rw [Nat.pow_zero, Nat.mul_one, Nat.mul_one]
  · have hneg : ¬ (0 : Int) ≤ -((k + 1 : Nat) : Int) := by omega
    simp only [Exact.whole?]
    rw [if_neg hneg, Int.neg_neg, Int.toNat_natCast, Nat.pow_eq, if_pos (Nat.mul_mod_left _ _),
      Nat.mul_div_cancel _ (Nat.two_pow_pos _)]
    rfl

/-- **A small natural is the integer that its number equals.** -/
theorem whole?_ofNat (h : n < 2 ^ 53) : whole? (Float.ofNat n) = some (n : Int) := by
  rcases Nat.eq_zero_or_pos n with rfl | hpos
  · decide +kernel
  · show (exact (Float.ofNat n)).whole? = some (n : Int)
    rw [exact_ofNat hpos h, Exact.whole?_shifted]

end DrawLang.Number
