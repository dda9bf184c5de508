/-
DrawLang/Proofs/Number/Interval.lean

The magnitudes that round to a number.  Around `mantissa · 2 ^ exponent` they form an
interval that goes half a unit of the last place to either side, and a quarter
downwards where the spacing of the numbers changes; the ends belong to it if the
mantissa is even.  No magnitude rounds to two numbers (`Covers.unique`): where two
intervals meet, one of the mantissas is odd.
-/
import Mathlib.Algebra.Order.Field.Rat
import Mathlib.Algebra.Order.Ring.Int
import Mathlib.Tactic.Linarith
import Mathlib.Tactic.Ring
import DrawLang.Proofs.Number.Exact

namespace DrawLang.Number

/-- A quarter of a unit of the last place. -/
def quarter (exponent : Int) : ℚ := 2 ^ (exponent - 2)

/-- How many quarters the interval goes downwards. -/
def downwards (mantissa : Nat) (exponent : Int) : Nat :=
  if mantissa = 2 ^ 52 ∧ -1074 < exponent then 1 else 2

/-- The magnitude rounds to `mantissa · 2 ^ exponent`. -/
structure Covers (mantissa : Nat) (exponent : Int) (x : ℚ) : Prop where
  lower : (4 * mantissa - downwards mantissa exponent) * quarter exponent < x ∨
    mantissa % 2 = 0 ∧ (4 * mantissa - downwards mantissa exponent) * quarter exponent = x
  upper : x < (4 * mantissa + 2) * quarter exponent ∨
    mantissa % 2 = 0 ∧ x = (4 * mantissa + 2) * quarter exponent

variable {mantissa mantissa' : Nat} {exponent exponent' : Int} {x : ℚ}

theorem quarter_pos (exponent : Int) : 0 < quarter exponent := zpow_pos two_pos _

theorem four_mul_quarter (exponent : Int) : 4 * quarter exponent = 2 ^ exponent := by
  rw [quarter, zpow_sub₀ (by norm_num)]
  norm_num
  ring

theorem downwards_pos (mantissa : Nat) (exponent : Int) : 0 < downwards mantissa exponent := by
  unfold downwards
  split <;> omega

/-- **A number rounds to itself.** -/
theorem covers_exact (mantissa : Nat) (exponent : Int) :
    Covers mantissa exponent (mantissa * 2 ^ exponent) := by
  have hq := quarter_pos exponent
  have hdown : (0 : ℚ) < downwards mantissa exponent := by exact_mod_cast downwards_pos _ _
  have hmul := mul_pos hdown hq
  rw [← four_mul_quarter]
  exact ⟨.inl (by linarith), .inl (by linarith)⟩

/-- A unit of a greater exponent is at least twice as large. -/
theorem two_mul_quarter_le (h : exponent < exponent') :
    2 * quarter exponent ≤ quarter exponent' := by
  unfold quarter
  calc (2 : ℚ) * 2 ^ (exponent - 2) = 2 ^ (exponent - 2 + 1) := by
        rw [zpow_add_one₀ (by norm_num), mul_comm]
    _ ≤ 2 ^ (exponent' - 2) := zpow_le_zpow_right₀ (by norm_num) (by omega)

/-- A mantissa that stands for an exponent above another one has a leading one. -/
theorem Canonical.leading_of_lt (h : Canonical mantissa exponent)
    (h' : Canonical mantissa' exponent') (hlt : exponent < exponent') : 2 ^ 52 ≤ mantissa' := by
  by_contra hle
  have hleast := h'.leading (Nat.not_le.1 hle)
  have hge := h.exponent_ge
  omega

/-- The interval of one number lies before that of another one, and they do not meet
where both have their ends. -/
def Before (mantissa : Nat) (exponent : Int) (mantissa' : Nat) (exponent' : Int) : Prop :=
  (4 * mantissa + 2) * quarter exponent ≤
      (4 * mantissa' - downwards mantissa' exponent') * quarter exponent' ∧
    (mantissa % 2 = 0 → mantissa' % 2 = 0 → (4 * mantissa + 2) * quarter exponent <
      (4 * mantissa' - downwards mantissa' exponent') * quarter exponent')

/-- With the same exponent the intervals follow the mantissas, and odd ones the even ones. -/
theorem before_of_mantissa_lt (h : Canonical mantissa exponent) (hlt : mantissa < mantissa') :
    Before mantissa exponent mantissa' exponent := by
  have hq := quarter_pos exponent
  -- the spacing changes at the least mantissa with a leading one, which is no greater one
  have hdown : downwards mantissa' exponent = 2 := by
    have hleading := h.leading
    unfold downwards
    split <;> omega
  rw [Before, hdown]
  constructor
  · have hle : (mantissa + 1 : ℚ) ≤ mantissa' := by exact_mod_cast hlt
    exact mul_le_mul_of_nonneg_right (by push_cast; linarith) hq.le
  · intro heven heven'
    have htwo : mantissa + 2 ≤ mantissa' := by omega
    have hle : (mantissa + 2 : ℚ) ≤ mantissa' := by exact_mod_cast htwo
    exact mul_lt_mul_of_pos_right (by push_cast; linarith) hq

/-- The intervals of a greater exponent follow those of a smaller one. -/
theorem before_of_exponent_lt (h : Canonical mantissa exponent)
    (h' : Canonical mantissa' exponent') (hlt : exponent < exponent') :
    Before mantissa exponent mantissa' exponent' := by
  have hq := quarter_pos exponent
  have hlow : (2 ^ 55 - 2) * quarter exponent ≤
      (4 * mantissa' - downwards mantissa' exponent') * quarter exponent' := by
    have hdown : 2 ^ 54 + downwards mantissa' exponent' ≤ 4 * mantissa' + 1 := by
      have hleading := h.leading_of_lt h' hlt
      have hge := h.exponent_ge
      unfold downwards
      split <;> omega
    have hcast : (2 ^ 54 + downwards mantissa' exponent' : ℚ) ≤ 4 * mantissa' + 1 := by
      exact_mod_cast hdown
    calc (2 ^ 55 - 2) * quarter exponent = (2 ^ 54 - 1) * (2 * quarter exponent) := by ring
      _ ≤ _ := mul_le_mul (by linarith) (two_mul_quarter_le hlt) (by linarith) (by linarith)
  have hmantissa := h.mantissa_lt
  constructor
  · have hle : (mantissa + 1 : ℚ) ≤ 2 ^ 53 := by exact_mod_cast hmantissa
    exact (mul_le_mul_of_nonneg_right (by linarith) hq.le).trans hlow
  · intro heven _
    have hle : (mantissa + 2 : ℚ) ≤ 2 ^ 53 := by exact_mod_cast (by omega : mantissa + 2 ≤ 2 ^ 53)
    exact (mul_lt_mul_of_pos_right (by linarith) hq).trans_le hlow

/-- No magnitude rounds to two numbers whose intervals lie one before the other. -/
theorem Covers.not_of_before (h : Before mantissa exponent mantissa' exponent')
    (hx : Covers mantissa exponent x) : ¬ Covers mantissa' exponent' x := by
  intro hx'
  rcases hx.upper with hupper | ⟨heven, hupper⟩
  · rcases hx'.lower with hlower | ⟨-, hlower⟩ <;> linarith [h.1]
  · rcases hx'.lower with hlower | ⟨heven', hlower⟩
    · linarith [h.1]
    · linarith [h.2 heven heven']

/-- **A magnitude rounds to one number.** -/
theorem Covers.unique (h : Canonical mantissa exponent) (h' : Canonical mantissa' exponent')
    (hx : Covers mantissa exponent x) (hx' : Covers mantissa' exponent' x) :
    mantissa = mantissa' ∧ exponent = exponent' := by
  rcases lt_trichotomy exponent exponent' with hlt | rfl | hlt
  · exact absurd hx' (hx.not_of_before (before_of_exponent_lt h h' hlt))
  · rcases lt_trichotomy mantissa mantissa' with hlt | rfl | hlt
    · exact absurd hx' (hx.not_of_before (before_of_mantissa_lt h hlt))
    · exact ⟨rfl, rfl⟩
    · exact absurd hx (hx'.not_of_before (before_of_mantissa_lt h' hlt))
  · exact absurd hx (hx'.not_of_before (before_of_exponent_lt h' h hlt))

end DrawLang.Number
