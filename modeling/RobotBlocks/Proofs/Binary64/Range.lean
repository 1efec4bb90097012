import Mathlib.Algebra.Order.Field.Power
import Mathlib.Algebra.Order.Ring.Rat
import Mathlib.Tactic.Linarith
import Mathlib.Tactic.Positivity
import RobotBlocks.Binary64.Reading

/-!
# The range of binary64 numbers

Every number that is read is `InRange`: its significand has at most 53 bits and its exponent lies
between the least and the greatest one (`inRange_read`). All such numbers come from `round`, so the
statement is about `round`: the exponent that it chooses leaves at most 53 bits in front of the point
(`lt_exponentFor`), and rounding adds at most one.

Powers of two and ten stand in natural numbers on one side or the other of an inequality, depending
on the sign of the exponent. `mul_pow_lt_iff` brings both forms to one inequality of rationals.
-/

set_option autoImplicit false

namespace RobotBlocks.Binary64

variable {negative : Bool}

/-- The significand and the exponent of a finite number fit into their bits. -/
def InRange (value : Binary64) : Prop :=
  ∀ negative significand exponent, value = finite negative significand exponent →
    significand < 2 ^ precision ∧ minExponent ≤ exponent ∧ exponent ≤ maxExponent

/-! ## Powers with integer exponents -/

theorem zpow_eq_div (base : ℕ) (hbase : 0 < base) (exponent : ℤ) :
    (base : ℚ) ^ exponent = (base : ℚ) ^ exponent.toNat / (base : ℚ) ^ (-exponent).toNat := by
  have hne : (base : ℚ) ≠ 0 := by exact_mod_cast hbase.ne'
  rcases le_total 0 exponent with h | h
  · obtain ⟨n, rfl⟩ := Int.eq_ofNat_of_zero_le h
    simp
  · obtain ⟨n, hn⟩ := Int.eq_ofNat_of_zero_le (Int.neg_nonneg_of_nonpos h)
    obtain rfl : exponent = -n := by omega
    simp

theorem mul_pow_lt_iff {base : ℕ} (hbase : 0 < base) (a b : ℕ) (exponent : ℤ) :
    a * base ^ (-exponent).toNat < b * base ^ exponent.toNat ↔
      (a : ℚ) < b * (base : ℚ) ^ exponent := by
  have hpos : (0 : ℚ) < (base : ℚ) ^ (-exponent).toNat := by
    have : (0 : ℚ) < base := by exact_mod_cast hbase
    positivity
  rw [zpow_eq_div base hbase, ← mul_div_assoc, lt_div_iff₀ hpos]
  exact_mod_cast Iff.rfl

theorem mul_twoTo_lt_iff (a b : ℕ) (exponent : ℤ) :
    a * twoTo (-exponent) < b * twoTo exponent ↔ (a : ℚ) < b * (2 : ℚ) ^ exponent := by
  exact_mod_cast mul_pow_lt_iff (by decide : 0 < 2) a b exponent

theorem mul_tenTo_lt_iff (a b : ℕ) (exponent : ℤ) :
    a * tenTo (-exponent) < b * tenTo exponent ↔ (a : ℚ) < b * (10 : ℚ) ^ exponent := by
  exact_mod_cast mul_pow_lt_iff (by decide : 0 < 10) a b exponent

theorem twoTo_pos (exponent : ℤ) : 0 < twoTo exponent := Nat.pow_pos (by decide)

theorem twoTo_natCast (exponent : ℕ) : twoTo exponent = 2 ^ exponent := by
  simp [twoTo]

theorem tenTo_pos (exponent : ℤ) : 0 < tenTo exponent := Nat.pow_pos (by decide)

/-! ## Rounding -/

variable {den : ℕ}

/-- A quotient is less than two to the difference of the logarithms and one. -/
theorem lt_mul_two_zpow_log2 (num : ℕ) (hden : den ≠ 0) :
    (num : ℚ) < den * (2 : ℚ) ^ ((num.log2 : ℤ) - den.log2 + 1) := by
  have hnum : (num : ℚ) < (2 : ℚ) ^ ((num.log2 : ℤ) + 1) := by
    exact_mod_cast (Nat.lt_log2_self : num < 2 ^ (num.log2 + 1))
  have hlog : (2 : ℚ) ^ (den.log2 : ℤ) ≤ den := by
    exact_mod_cast Nat.log2_self_le hden
  have hpos : (0 : ℚ) < (2 : ℚ) ^ ((num.log2 : ℤ) - den.log2 + 1) := by positivity
  calc (num : ℚ) < (2 : ℚ) ^ ((num.log2 : ℤ) + 1) := hnum
    _ = (2 : ℚ) ^ (den.log2 : ℤ) * (2 : ℚ) ^ ((num.log2 : ℤ) - den.log2 + 1) := by
      rw [← zpow_add₀ (by norm_num)]
      congr 1
      omega
    _ ≤ den * (2 : ℚ) ^ ((num.log2 : ℤ) - den.log2 + 1) :=
      mul_le_mul_of_nonneg_right hlog hpos.le

/-- At the exponent of a quotient at most 53 bits stand in front of the point. -/
theorem lt_exponentFor (num : ℕ) (hden : den ≠ 0) :
    num * twoTo (-exponentFor num den) < den * 2 ^ precision * twoTo (exponentFor num den) := by
  rw [mul_twoTo_lt_iff]
  -- it holds at the exponent before the least one is taken into account, hence at a greater one
  have hexponent : ∃ exponent ≤ exponentFor num den,
      (num : ℚ) < (den * 2 ^ precision : ℕ) * (2 : ℚ) ^ exponent := by
    refine ⟨_, le_max_right _ _, ?_⟩
    split
    · next hfits =>
      rw [← mul_twoTo_lt_iff]
      calc _ < _ := hfits
        _ = _ := by rw [twoTo_natCast, mul_right_comm]
    · have hlog := lt_mul_two_zpow_log2 num hden
      rw [Nat.cast_mul, Nat.cast_pow, Nat.cast_ofNat, mul_assoc, ← zpow_natCast,
        ← zpow_add₀ (by norm_num)]
      convert hlog using 3
      simp only [precision]
      omega
  obtain ⟨exponent, hle, hlt⟩ := hexponent
  refine hlt.trans_le (mul_le_mul_of_nonneg_left ?_ (Nat.cast_nonneg _))
  exact zpow_le_zpow_right₀ (by norm_num) hle

theorem roundQuotient_le_of_lt {num bound : ℕ} (h : num < bound * den) :
    roundQuotient num den ≤ bound := by
  have hden : 0 < den := Nat.pos_of_ne_zero fun hzero => by simp [hzero] at h
  have hquotient : num / den < bound := (Nat.div_lt_iff_lt_mul hden).2 h
  show (if _ then num / den + 1 else num / den) ≤ bound
  split
  · exact hquotient
  · exact hquotient.le

theorem inRange_finite {significand : ℕ} {exponent : ℤ}
    (hsignificand : significand < 2 ^ precision) (hleast : minExponent ≤ exponent)
    (hgreatest : exponent ≤ maxExponent) : InRange (finite negative significand exponent) := by
  rintro _ _ _ ⟨⟩
  exact ⟨hsignificand, hleast, hgreatest⟩

theorem inRange_infinite (negative : Bool) : InRange (infinite negative) := by
  rintro _ _ _ ⟨⟩

theorem inRange_bounded {significand : ℕ} {exponent : ℤ}
    (hsignificand : significand < 2 ^ precision) (hleast : minExponent ≤ exponent) :
    InRange (bounded negative significand exponent) := by
  unfold bounded
  split
  · exact inRange_infinite negative
  · next hgreatest => exact inRange_finite hsignificand hleast (Int.not_lt.1 hgreatest)

theorem inRange_round (negative : Bool) (num : ℕ) (hden : den ≠ 0) :
    InRange (round negative num den) := by
  have hle : significandAt num den (exponentFor num den) ≤ 2 ^ precision := by
    refine roundQuotient_le_of_lt ?_
    rw [← mul_assoc, mul_comm (2 ^ precision)]
    exact lt_exponentFor num hden
  have hleast : minExponent ≤ exponentFor num den := le_max_left _ _
  have hhalf : twoTo ((precision : ℤ) - 1) < 2 ^ precision := by
    rw [show twoTo ((precision : ℤ) - 1) = 2 ^ (precision - 1) from twoTo_natCast (precision - 1)]
    exact Nat.pow_lt_pow_right (by decide) (by decide)
  simp only [round]
  split
  · exact inRange_bounded hhalf (by omega)
  · next hfull =>
    rw [twoTo_natCast] at hfull
    exact inRange_bounded (lt_of_le_of_ne hle hfull) hleast

/-! ## Reading -/

theorem inRange_zero (negative : Bool) : InRange (finite negative 0 minExponent) :=
  inRange_finite (by decide) (le_refl _) (by decide)

theorem inRange_ofDecimal (negative : Bool) (digits length : ℕ) (exponent : ℤ) :
    InRange (ofDecimal negative digits length exponent) := by
  unfold ofDecimal
  split
  · exact inRange_zero negative
  · split
    · exact inRange_infinite negative
    · split
      · exact inRange_zero negative
      · exact inRange_round negative _ (tenTo_pos _).ne'

theorem inRange_readUnsigned {cs : List Char} {value : Binary64}
    (h : readUnsigned negative cs = some value) : InRange value := by
  unfold readUnsigned at h
  simp only [Option.ite_none_left_eq_some, Option.map_eq_some_iff] at h
  obtain ⟨-, exponent, -, rfl⟩ := h
  exact inRange_ofDecimal _ _ _ _

theorem inRange_read {s : String} {value : Binary64} (h : read s = some value) : InRange value := by
  unfold read readChars at h
  simp only at h
  split at h
  · cases h
    rintro _ _ _ ⟨⟩
  · split at h
    · cases h
      exact inRange_infinite _
    · exact inRange_readUnsigned h

end RobotBlocks.Binary64
