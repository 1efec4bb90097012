import RobotBlocks.Binary64.Shortest
import RobotBlocks.Proofs.Binary64.Range

/-!
# The digits of a number are not all zero

The search for the shortest decimal tries grids of powers of ten. A grid point that is taken lies
above the lower end of the interval of decimals that read back, so it is not zero. If no grid has
one, the digits of the number itself are taken; they are not all zero because the magnitude, which
is estimated from the logarithm to the base two, is never too great by more than one power of ten for
numbers in range (`ten_zpow_le_two_zpow`).
-/

set_option autoImplicit false

namespace RobotBlocks.Binary64

/-! ## Powers of ten and powers of two -/

theorem ten_zpow_le_two_zpow_of_nonneg {a b : ℤ} (ha : 0 ≤ a) (h : 10 * ((a + 2) / 3) ≤ b) :
    (10 : ℚ) ^ a ≤ (2 : ℚ) ^ b := by
  have hthird : 0 ≤ (a + 2) / 3 := by omega
  calc (10 : ℚ) ^ a ≤ (10 : ℚ) ^ (3 * ((a + 2) / 3)) :=
        zpow_le_zpow_right₀ (by norm_num) (by omega)
    _ = ((10 : ℚ) ^ (3 : ℤ)) ^ ((a + 2) / 3) := zpow_mul _ _ _
    _ ≤ ((2 : ℚ) ^ (10 : ℤ)) ^ ((a + 2) / 3) :=
        zpow_le_zpow_left₀ hthird (by positivity) (by norm_num)
    _ = (2 : ℚ) ^ (10 * ((a + 2) / 3)) := (zpow_mul _ _ _).symm
    _ ≤ (2 : ℚ) ^ b := zpow_le_zpow_right₀ (by norm_num) h

theorem ten_zpow_le_two_zpow_of_nonpos {a b : ℤ} (ha : a ≤ 0) (h : -b ≤ 33 * (-a / 10)) :
    (10 : ℚ) ^ a ≤ (2 : ℚ) ^ b := by
  have htenth : 0 ≤ -a / 10 := by omega
  have hpow : ((2 : ℚ) ^ (33 : ℤ)) ^ (-a / 10) ≤ ((10 : ℚ) ^ (10 : ℤ)) ^ (-a / 10) :=
    zpow_le_zpow_left₀ htenth (by positivity) (by norm_num)
  calc (10 : ℚ) ^ a ≤ (10 : ℚ) ^ (-(10 * (-a / 10))) :=
        zpow_le_zpow_right₀ (by norm_num) (by omega)
    _ = (((10 : ℚ) ^ (10 : ℤ)) ^ (-a / 10))⁻¹ := by rw [zpow_neg, zpow_mul]
    _ ≤ (((2 : ℚ) ^ (33 : ℤ)) ^ (-a / 10))⁻¹ := inv_anti₀ (by positivity) hpow
    _ = (2 : ℚ) ^ (-(33 * (-a / 10))) := by rw [zpow_neg, zpow_mul]
    _ ≤ (2 : ℚ) ^ b := zpow_le_zpow_right₀ (by norm_num) (by omega)

/-- The estimate of a power of ten from a power of two is good enough within the range. -/
theorem ten_zpow_le_two_zpow {log : ℤ} (hlow : -2000 ≤ log) (hhigh : log ≤ 2000) :
    (10 : ℚ) ^ ((log * 30103).fdiv 100000 - 18) ≤ (2 : ℚ) ^ (log - 1) := by
  rw [Int.fdiv_eq_ediv_of_nonneg _ (by norm_num)]
  rcases le_total 0 ((log * 30103) / 100000 - 18) with h | h
  · exact ten_zpow_le_two_zpow_of_nonneg h (by omega)
  · exact ten_zpow_le_two_zpow_of_nonpos h (by omega)

/-! ## The search -/

namespace Readback

variable {r : Readback}

theorem digits_pos_of_onGrid (hlow : 0 < r.low) {power : ℤ} {decimal : Decimal}
    (h : r.onGrid power = some decimal) : 0 < decimal.digits := by
  have hpos : 0 < r.low * tenTo (-power) := Nat.mul_pos hlow (tenTo_pos _)
  -- the lower neighbour is taken only if it lies above the lower end
  have hdown : ∀ down unit : ℕ, r.low * tenTo (-power) ≤ down * unit → 0 < down := by
    intro down unit hle
    exact Nat.pos_of_mul_pos_right (hpos.trans_le hle)
  unfold onGrid at h
  cases hclosed : r.closed <;>
    simp only [hclosed, Bool.false_eq_true, if_false, if_true] at h <;>
    split at h
  · cases h
    exact Nat.succ_pos _
  · split at h
    · next hhits =>
      cases h
      exact hdown _ _ hhits.le
    · cases h
  · cases h
    exact Nat.succ_pos _
  · split at h
    · next hhits =>
      cases h
      exact hdown _ _ hhits
    · cases h

theorem digits_pos_of_search (hlow : 0 < r.low) {magnitude : ℤ} {steps length : ℕ}
    (hlast : r.denominator ≤ r.value * tenTo ((length + steps : ℕ) - magnitude))
    (hden : 0 < r.denominator) : 0 < (r.search magnitude steps length).digits := by
  induction steps generalizing length with
  | zero => exact Nat.div_pos hlast hden
  | succ steps ih =>
    unfold search
    split
    · next decimal hgrid => exact digits_pos_of_onGrid hlow hgrid
    · exact ih (by rwa [Nat.add_right_comm, Nat.add_assoc])

/-- The estimated magnitude is at most eighteen powers of ten too great. -/
theorem denominator_le_of_magnitude (hvalue : r.value ≠ 0)
    (hlow : -2000 ≤ (r.value.log2 : ℤ) - r.denominator.log2)
    (hhigh : (r.value.log2 : ℤ) - r.denominator.log2 ≤ 2000) :
    (r.denominator : ℚ) * (10 : ℚ) ^ (r.magnitude - 18) ≤ r.value := by
  have hbelow : ∀ power, r.below power = false →
      (r.denominator : ℚ) * (10 : ℚ) ^ power ≤ r.value := by
    intro power h
    rw [below, decide_eq_false_iff_not, mul_tenTo_lt_iff, not_lt] at h
    exact h
  have hlog : (r.denominator : ℚ) * (2 : ℚ) ^ ((r.value.log2 : ℤ) - r.denominator.log2 - 1) ≤
      r.value := by
    have hden : (r.denominator : ℚ) ≤ (2 : ℚ) ^ ((r.denominator.log2 : ℤ) + 1) := by
      exact_mod_cast (Nat.lt_log2_self : r.denominator < _).le
    calc (r.denominator : ℚ) * (2 : ℚ) ^ ((r.value.log2 : ℤ) - r.denominator.log2 - 1)
        ≤ (2 : ℚ) ^ ((r.denominator.log2 : ℤ) + 1) *
            (2 : ℚ) ^ ((r.value.log2 : ℤ) - r.denominator.log2 - 1) :=
          mul_le_mul_of_nonneg_right hden (by positivity)
      _ = (2 : ℚ) ^ (r.value.log2 : ℤ) := by
          rw [← zpow_add₀ (by norm_num)]
          congr 1
          omega
      _ ≤ r.value := by exact_mod_cast Nat.log2_self_le hvalue
  have hmono : ∀ power, r.below power = false → r.magnitude ≤ power + 18 →
      (r.denominator : ℚ) * (10 : ℚ) ^ (r.magnitude - 18) ≤ r.value := by
    intro power hpower hle
    refine le_trans (mul_le_mul_of_nonneg_left ?_ (Nat.cast_nonneg _)) (hbelow power hpower)
    exact zpow_le_zpow_right₀ (by norm_num) (by omega)
  generalize hguess : (((r.value.log2 : ℤ) - r.denominator.log2) * 30103).fdiv 100000 = guess
  have hmagnitude : r.magnitude = if r.below guess then guess
      else if r.below (guess + 1) then guess + 1 else guess + 2 := by
    rw [← hguess]
    rfl
  cases hfirst : r.below guess with
  | true =>
    -- the estimate itself: here its accuracy counts
    rw [hmagnitude, hfirst, if_pos rfl, ← hguess]
    refine le_trans (mul_le_mul_of_nonneg_left ?_ (Nat.cast_nonneg _)) hlog
    exact ten_zpow_le_two_zpow hlow hhigh
  | false =>
    refine hmono guess hfirst ?_
    simp only [hmagnitude, hfirst, Bool.false_eq_true, if_false]
    split <;> omega

end Readback

/-- The shortest digits of a number other than zero are not zero. -/
theorem digits_shortest_pos {significand : ℕ} {exponent : ℤ} (hpos : significand ≠ 0)
    (hbits : significand < 2 ^ precision) (hleast : minExponent ≤ exponent)
    (hgreatest : exponent ≤ maxExponent) : 0 < (shortest significand exponent).digits := by
  have hscale := twoTo_pos (exponent - 2)
  have hden : (readback significand exponent).denominator = 2 ^ (2 - exponent).toNat := rfl
  have hvalue : (readback significand exponent).value = 4 * significand * 2 ^ (exponent - 2).toNat :=
    rfl
  have hne : (readback significand exponent).value ≠ 0 :=
    (Nat.mul_pos (by omega) hscale).ne'
  have hlow : 0 < (readback significand exponent).low := by
    refine Nat.mul_pos ?_ hscale
    split <;> omega
  have hdenLog : (readback significand exponent).denominator.log2 = (2 - exponent).toNat := by
    rw [hden, Nat.log2_two_pow]
  have hvalueLog : (readback significand exponent).value.log2 < 55 + (exponent - 2).toNat := by
    rw [Nat.log2_lt hne, hvalue, Nat.pow_add]
    refine Nat.mul_lt_mul_of_pos_right ?_ (Nat.pow_pos (by decide))
    rw [precision] at hbits
    omega
  rw [minExponent] at hleast
  rw [maxExponent] at hgreatest
  have hmagnitude := Readback.denominator_le_of_magnitude hne (by omega) (by omega)
  rw [shortest]
  refine Readback.digits_pos_of_search hlow ?_ (hden ▸ Nat.pow_pos (by decide))
  generalize (readback significand exponent).magnitude = magnitude at hmagnitude ⊢
  rw [← not_lt, ← mul_tenTo_lt_iff, not_lt, neg_sub] at hmagnitude
  exact (Nat.le_mul_of_pos_right _ (tenTo_pos _)).trans hmagnitude

end RobotBlocks.Binary64
