/-
DrawLang/Proofs/Number/Shortest.lean

The shortest decimal of a number rounds to it.  A grid tells all lengths in one common
unit, so that what is a hit there lies in the interval of the number
(`covers_of_hit?`).  The walk from coarse grids to fine ones ends on a grid that is
finer than the interval, if not before, and so ends inside it (`covers_shortest`).
-/
import DrawLang.Number.Shortest
import DrawLang.Proofs.Number.Interval

namespace DrawLang

/-- What a decimal tells without its sign. -/
def Decimal.magnitude (d : Decimal) : ℚ := d.digits * 10 ^ d.scale

namespace Number

variable {mantissa : Nat} {exponent scale : Int} {tie : Tie}

/-! ### Powers -/

/-- A power with an integer exponent, told by natural ones. -/
theorem zpow_mul_pow {b : ℚ} (hb : b ≠ 0) (k : Int) : b ^ k * b ^ (-k).toNat = b ^ k.toNat := by
  rw [← zpow_natCast, ← zpow_natCast, ← zpow_add₀ hb]
  congr 1
  omega

/-- From a thousand up, powers of ten are compared with powers of 2 ^ 10 > 10 ^ 3. -/
theorem ten_pow_le_two_zpow {n : Nat} {k : Int} (h : 10 * n ≤ 3 * k) : (10 : ℚ) ^ n ≤ 2 ^ k := by
  obtain ⟨j, rfl⟩ := Int.eq_ofNat_of_zero_le (by omega : 0 ≤ k)
  have hcube : ((10 : ℚ) ^ n) ^ 3 ≤ ((2 : ℚ) ^ j) ^ 3 := by
    calc ((10 : ℚ) ^ n) ^ 3 = 1000 ^ n := by rw [← pow_mul, mul_comm, pow_mul]; norm_num
      _ ≤ 1024 ^ n := pow_le_pow_left₀ (by norm_num) (by norm_num) n
      _ = 2 ^ (10 * n) := by rw [pow_mul]; norm_num
      _ ≤ 2 ^ (j * 3) := pow_le_pow_right₀ (by norm_num) (by omega)
      _ = _ := pow_mul 2 j 3
  rw [zpow_natCast]
  exact le_of_pow_le_pow_left₀ (by norm_num) (by positivity) hcube

/-- Below one, powers of ten are compared with powers of 2 ^ 33 < 10 ^ 10. -/
theorem two_zpow_le_ten_pow {n : Nat} {k : Int} (h : 10 * k ≤ 33 * n) : (2 : ℚ) ^ k ≤ 10 ^ n := by
  rcases le_total k 0 with hk | hk
  · exact (zpow_le_one_of_nonpos₀ (by norm_num) hk).trans (one_le_pow₀ (by norm_num))
  · obtain ⟨j, rfl⟩ := Int.eq_ofNat_of_zero_le hk
    have hten : ((2 : ℚ) ^ j) ^ 10 ≤ ((10 : ℚ) ^ n) ^ 10 := by
      calc ((2 : ℚ) ^ j) ^ 10 = 2 ^ (j * 10) := (pow_mul 2 j 10).symm
        _ ≤ 2 ^ (33 * n) := pow_le_pow_right₀ (by norm_num) (by omega)
        _ = 8589934592 ^ n := by rw [pow_mul]; norm_num
        _ ≤ 10000000000 ^ n := pow_le_pow_left₀ (by norm_num) (by norm_num) n
        _ = _ := by rw [← pow_mul, mul_comm, pow_mul]; norm_num
    rw [zpow_natCast]
    exact le_of_pow_le_pow_left₀ (by norm_num) (by positivity) hten

/-- Twenty-four digits below the roof a grid is finer than a quarter of a unit of the last place. -/
theorem unit_le_quarter (h : Canonical mantissa exponent) :
    (10 : ℚ) ^ (roof mantissa exponent - depth) ≤ quarter exponent := by
  have hlog : mantissa.log2 < 53 := by
    rcases Nat.eq_zero_or_pos mantissa with rfl | hpos
    · decide
    · exact (Nat.log2_lt hpos.ne').2 h.mantissa_lt
  have hge := h.exponent_ge
  have hle := h.exponent_le
  unfold quarter roof depth
  generalize ht : ((mantissa.log2 : Int) + 1 + exponent) * 30103 / 100000 + 1 - (24 : Nat) = t
  rcases le_total 0 t with hpos | hneg
  · obtain ⟨n, rfl⟩ := Int.eq_ofNat_of_zero_le hpos
    rw [zpow_natCast]
    exact ten_pow_le_two_zpow (by omega)
  · obtain ⟨n, hn⟩ := Int.eq_ofNat_of_zero_le (by omega : 0 ≤ -t)
    obtain rfl : t = -n := by omega
    have hinv : (2 : ℚ) ^ (2 - exponent) ≤ 10 ^ n := two_zpow_le_ten_pow (by omega)
    rw [zpow_neg, zpow_natCast, show exponent - 2 = -(2 - exponent) by omega, zpow_neg]
    exact inv_anti₀ (zpow_pos two_pos _) hinv

/-! ### Grids -/

/-- How often the common unit of a grid goes into one. -/
def common (exponent scale : Int) : ℚ := 2 ^ (2 - exponent).toNat * 10 ^ (-scale).toNat

theorem common_pos (exponent scale : Int) : 0 < common exponent scale :=
  mul_pos (pow_pos two_pos _) (pow_pos (by norm_num) _)

/-- The quarter of a grid, in its common unit. -/
def gridQuarter (exponent scale : Int) : Nat :=
  2 ^ (exponent - 2).toNat * 10 ^ (-scale).toNat

theorem quarter_mul_common (exponent scale : Int) :
    quarter exponent * common exponent scale = gridQuarter exponent scale := by
  have htwo := zpow_mul_pow (b := 2) (by norm_num) (exponent - 2)
  rw [show -(exponent - 2) = 2 - exponent by omega] at htwo
  rw [quarter, common, gridQuarter, ← mul_assoc, htwo]
  push_cast
  rfl

theorem unit_eq (mantissa : Nat) (exponent scale : Int) :
    ((grid mantissa exponent scale).unit : ℚ) = 10 ^ scale * common exponent scale := by
  rw [common, mul_left_comm, zpow_mul_pow (by norm_num), grid]
  simp only [Nat.pow_eq]
  push_cast
  rfl

theorem reach_eq (mantissa : Nat) (exponent scale : Int) :
    (grid mantissa exponent scale).lowerReach =
        downwards mantissa exponent * gridQuarter exponent scale ∧
      (grid mantissa exponent scale).upperReach = 2 * gridQuarter exponent scale :=
  ⟨rfl, rfl⟩

/-- The multiple below the number, and the distance to the number. -/
theorem below_mul_unit (mantissa : Nat) (exponent scale : Int) :
    let g := grid mantissa exponent scale
    g.below * g.unit + g.distance = 4 * mantissa * gridQuarter exponent scale :=
  Nat.div_add_mod' _ _

theorem distance_lt_unit (mantissa : Nat) (exponent scale : Int) :
    (grid mantissa exponent scale).distance < (grid mantissa exponent scale).unit :=
  Nat.mod_lt _ (Nat.mul_pos (Nat.pow_pos (by decide)) (Nat.pow_pos (by decide)))

/-- An interval is the same in other units. -/
theorem covers_of_mul {x d : ℚ} (hd : 0 < d)
    (hlower : (4 * mantissa - downwards mantissa exponent) * (quarter exponent * d) < x * d ∨
      mantissa % 2 = 0 ∧
        (4 * mantissa - downwards mantissa exponent) * (quarter exponent * d) = x * d)
    (hupper : x * d < (4 * mantissa + 2) * (quarter exponent * d) ∨
      mantissa % 2 = 0 ∧ x * d = (4 * mantissa + 2) * (quarter exponent * d)) :
    Covers mantissa exponent x := by
  rw [← mul_assoc, mul_lt_mul_iff_of_pos_right hd, mul_left_inj' hd.ne'] at hlower hupper
  exact ⟨hlower, hupper⟩

theorem reaches_iff {closed : Bool} {distance reach : Nat} :
    reaches closed distance reach ↔ distance < reach ∨ closed ∧ distance = reach := by
  simp [reaches]

theorem gridQuarter_pos (exponent scale : Int) : 0 < gridQuarter exponent scale :=
  Nat.mul_pos (Nat.pow_pos (by decide)) (Nat.pow_pos (by decide))

/-- The multiple below lies in the interval if its distance is within reach. -/
theorem covers_below (h : reaches (mantissa % 2 = 0) (grid mantissa exponent scale).distance
      (grid mantissa exponent scale).lowerReach) :
    Covers mantissa exponent ((grid mantissa exponent scale).below * 10 ^ scale) := by
  have hbelow := below_mul_unit mantissa exponent scale
  rw [reaches_iff, (reach_eq mantissa exponent scale).1, decide_eq_true_eq] at h
  have hunit := unit_eq mantissa exponent scale
  generalize grid mantissa exponent scale = g at h hbelow hunit ⊢
  have hx : (g.below * 10 ^ scale : ℚ) * common exponent scale =
      4 * mantissa * gridQuarter exponent scale - g.distance := by
    rw [mul_assoc, ← hunit, eq_sub_iff_add_eq]
    exact_mod_cast hbelow
  have hq : (0 : ℚ) < gridQuarter exponent scale := by exact_mod_cast gridQuarter_pos exponent scale
  have hd : (0 : ℚ) ≤ g.distance := Nat.cast_nonneg _
  refine covers_of_mul (common_pos exponent scale) ?_ (.inl ?_)
  · rw [quarter_mul_common, hx, sub_mul]
    refine h.imp (fun hlt => ?_) fun ⟨heven, heq⟩ => ⟨heven, ?_⟩
    · have hcast : (g.distance : ℚ) < downwards mantissa exponent * gridQuarter exponent scale := by
        exact_mod_cast hlt
      linarith
    · rw [heq]
      push_cast
      rfl
  · rw [quarter_mul_common, hx]
    linarith

/-- The multiple above lies in the interval if its distance is within reach. -/
theorem covers_above (h : reaches (mantissa % 2 = 0)
      ((grid mantissa exponent scale).unit - (grid mantissa exponent scale).distance)
      (grid mantissa exponent scale).upperReach) :
    Covers mantissa exponent (((grid mantissa exponent scale).below + 1 : Nat) * 10 ^ scale) := by
  have hbelow := below_mul_unit mantissa exponent scale
  have hdistance := distance_lt_unit mantissa exponent scale
  rw [reaches_iff, (reach_eq mantissa exponent scale).2, decide_eq_true_eq] at h
  have hunit := unit_eq mantissa exponent scale
  generalize grid mantissa exponent scale = g at h hbelow hdistance hunit ⊢
  have hx : ((g.below + 1 : Nat) * 10 ^ scale : ℚ) * common exponent scale =
      4 * mantissa * gridQuarter exponent scale + (g.unit - g.distance : Nat) := by
    rw [mul_assoc, ← hunit, Nat.cast_sub hdistance.le]
    have hcast : (g.below * g.unit + g.distance : ℚ) =
        4 * mantissa * gridQuarter exponent scale := by exact_mod_cast hbelow
    push_cast
    linarith
  have hq : (0 : ℚ) < gridQuarter exponent scale := by exact_mod_cast gridQuarter_pos exponent scale
  have hd : (0 : ℚ) < (g.unit - g.distance : Nat) := by exact_mod_cast Nat.sub_pos_of_lt hdistance
  have hdown : (0 : ℚ) ≤ downwards mantissa exponent := Nat.cast_nonneg _
  refine covers_of_mul (common_pos exponent scale) (.inl ?_) ?_
  · rw [quarter_mul_common, hx, sub_mul]
    have hmul := mul_nonneg hdown hq.le
    linarith
  · rw [quarter_mul_common, hx, add_mul]
    refine h.imp (fun hlt => ?_) fun ⟨heven, heq⟩ => ⟨heven, ?_⟩
    · have hcast : ((g.unit - g.distance : Nat) : ℚ) < 2 * gridQuarter exponent scale := by
        exact_mod_cast hlt
      linarith
    · rw [heq]
      push_cast
      rfl

/-- A hit is one of the two neighbours, and within reach. -/
theorem Grid.eq_of_hit? {g : Grid} {closed : Bool} {digits : Nat}
    (h : g.hit? tie closed = some digits) :
    digits = g.below ∧ reaches closed g.distance g.lowerReach ∨
      digits = g.below + 1 ∧ reaches closed (g.unit - g.distance) g.upperReach := by
  unfold hit? at h
  dsimp only at h
  split at h
  · rename_i hboth
    -- both are within reach, so either may be taken
    have hdigits : digits = g.below ∨ digits = g.below + 1 := by
      repeat' split at h
      all_goals simp_all
    exact hdigits.imp (fun h => ⟨h, hboth.1⟩) fun h => ⟨h, hboth.2⟩
  · split at h
    · exact .inl ⟨(Option.some.inj h).symm, ‹_›⟩
    · split at h
      · exact .inr ⟨(Option.some.inj h).symm, ‹_›⟩
      · cases h

/-- **A hit lies in the interval.** -/
theorem covers_of_hit? {digits : Nat}
    (h : (grid mantissa exponent scale).hit? tie (mantissa % 2 = 0) = some digits) :
    Covers mantissa exponent (digits * 10 ^ scale) := by
  obtain ⟨rfl, hlow⟩ | ⟨rfl, hhigh⟩ := Grid.eq_of_hit? h
  · exact covers_below hlow
  · exact covers_above hhigh

/-- On a grid that is finer than the interval, the multiple below is within reach. -/
theorem reaches_of_fine (h : (10 : ℚ) ^ scale ≤ quarter exponent) (closed : Bool) :
    reaches closed (grid mantissa exponent scale).distance
      (grid mantissa exponent scale).lowerReach := by
  have hunit : (grid mantissa exponent scale).unit ≤ gridQuarter exponent scale := by
    have hmul := mul_le_mul_of_nonneg_right h (common_pos exponent scale).le
    rw [quarter_mul_common, ← unit_eq mantissa] at hmul
    exact_mod_cast hmul
  rw [reaches_iff, (reach_eq mantissa exponent scale).1]
  exact .inl (((distance_lt_unit mantissa exponent scale).trans_le hunit).trans_le
    (Nat.le_mul_of_pos_left _ (downwards_pos mantissa exponent)))

/-! ### The walk -/

/-- The walk ends inside the interval if its last grid is finer than that. -/
theorem covers_firstHit (steps : Nat) (scale : Int)
    (h : (10 : ℚ) ^ (scale - steps) ≤ quarter exponent) :
    Covers mantissa exponent ((firstHit tie mantissa exponent steps scale).1 *
      10 ^ (firstHit tie mantissa exponent steps scale).2) := by
  induction steps generalizing scale with
  | zero =>
    rw [Nat.cast_zero, sub_zero] at h
    exact covers_below (reaches_of_fine h _)
  | succ steps ih =>
    rw [firstHit]
    split
    · rename_i digits hhit
      exact covers_of_hit? hhit
    · refine ih (scale - 1) ?_
      rwa [show scale - 1 - (steps : Int) = scale - (steps + 1 : Nat) by omega]

/-- Moving zeros into the scale changes nothing. -/
theorem trimmed_value (steps digits : Nat) (scale : Int) :
    ((trimmed steps digits scale).1 * 10 ^ (trimmed steps digits scale).2 : ℚ) =
      digits * 10 ^ scale := by
  induction steps generalizing digits scale with
  | zero => rfl
  | succ steps ih =>
    rw [trimmed]
    split
    · rename_i hzero
      have hten : ((digits / 10 * 10 : Nat) : ℚ) = digits := by rw [Nat.div_mul_cancel (by omega)]
      rw [ih, zpow_add_one₀ (by norm_num), ← hten]
      push_cast
      ring
    · rfl

/-- **The shortest decimal of a number rounds to it.** -/
theorem covers_shortest (h : Canonical mantissa exponent) (negative : Bool) :
    Covers mantissa exponent (shortest tie negative mantissa exponent).magnitude := by
  unfold shortest Decimal.magnitude
  split
  case isTrue hzero =>
    have hself := covers_exact mantissa exponent
    rw [hzero] at hself ⊢
    simpa using hself
  case isFalse hne =>
    show Covers _ _ (_ * _)
    rw [trimmed_value]
    exact covers_firstHit depth _ (unit_le_quarter h)

theorem negative_shortest (negative : Bool) :
    (shortest tie negative mantissa exponent).negative = negative := by
  unfold shortest
  split <;> rfl

end Number

end DrawLang
