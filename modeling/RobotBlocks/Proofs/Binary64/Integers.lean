import Mathlib.Tactic.Ring
import RobotBlocks.Proofs.Numeral.Literal
import RobotBlocks.Proofs.Text.Counts

/-!
# Integers among the binary64 numbers

Every integer up to two to the power of 53 is a binary64 number, and its decimal digits read as exactly
that number (`exists_readChars_of_writes`). The shortest text of a great one has all its digits and `.0`
behind them (`textOfPositive_natural`): a decimal without a fraction that reads back as the number is the
number itself, because the next integers are at least one gap away, and of its digits only zeros at the
end are left out and filled in again.
-/

set_option autoImplicit false

namespace RobotBlocks.Binary64

open Grammar List
open Nat (ofDigitChars toDigits)

variable {negative : Bool} {n : ℕ}

/-! ## Integers as numbers -/

/-- A number with the value of an integer: what the program asks about it is known, and if it is great
its text has all digits. -/
structure IsInteger (value : Binary64) (i : ℤ) : Prop where
  isFinite : value.isFinite = true
  isWhole : value.isWhole = true
  absAtMost_iff : ∀ bound, value.absAtMost bound = true ↔ i.natAbs ≤ bound
  absBelow_iff : ∀ bound, value.absBelow bound = true ↔ i.natAbs < bound
  toInteger_eq : value.toInteger = i
  text_eq : 10 ^ 15 ≤ i.natAbs → value.text = toString i ++ ".0"

theorem isInteger_finite {m : ℕ} {e : ℤ} (hbound : n < 2 ^ 63)
    (hvalue : numerator m e = n * denominator e)
    (htext : 10 ^ 15 ≤ n → textOfPositive m e = toString n ++ ".0") :
    IsInteger (finite negative m e) (if negative then -(n : ℤ) else n) := by
  have habs : (if negative then -(n : ℤ) else n).natAbs = n := by
    cases negative <;> simp
  refine ⟨rfl, ?_, fun bound => ?_, fun bound => ?_, ?_, fun hlow => ?_⟩
  · simp [isWhole, hvalue]
  · rw [absAtMost, hvalue, decide_eq_true_eq, habs]
    exact Nat.mul_le_mul_right_iff (twoTo_pos _)
  · rw [absBelow, hvalue, decide_eq_true_eq, habs]
    exact Nat.mul_lt_mul_right (twoTo_pos _)
  · have hdenominator : (denominator e : ℤ) ≠ 0 := by exact_mod_cast (twoTo_pos (-e)).ne'
    have hmin : minInteger = -2 ^ 63 := by decide
    have hmax : maxInteger = 2 ^ 63 - 1 := by decide
    rw [toInteger, hvalue, Nat.cast_mul, Int.mul_ediv_cancel _ hdenominator, hmin, hmax]
    cases negative with
    | true => simp only [if_true]; omega
    | false => simp only [Bool.false_eq_true, if_false]; omega
  · rw [habs] at hlow
    have hm : m ≠ 0 := by
      rintro rfl
      rw [numerator, Nat.zero_mul, eq_comm, Nat.mul_eq_zero] at hvalue
      have := twoTo_pos (-e)
      unfold denominator at hvalue
      omega
    rw [text, if_neg hm, htext hlow, toString_int, habs]
    cases negative with
    | true => rw [if_pos rfl, if_pos (by simp; omega), String.append_assoc]
    | false => simp

/-! ## Rounding -/

theorem twoTo_neg_natCast (k : ℕ) : twoTo (-(k : ℤ)) = 1 := by
  simp [twoTo]

/-- The bits of an integer are moved up until they fill the precision. -/
theorem exponentFor_one (hpos : n ≠ 0) (hbits : n < 2 ^ precision) :
    ∃ k : ℕ, exponentFor n 1 = -k ∧ n * 2 ^ k < 2 ^ precision := by
  have hlog : n.log2 < precision := (Nat.log2_lt hpos).2 hbits
  have hle : 2 ^ n.log2 ≤ n := Nat.log2_self_le hpos
  have hlt : n < 2 ^ (n.log2 + 1) := Nat.lt_log2_self
  rw [precision] at hlog
  refine ⟨52 - n.log2, ?_, ?_⟩
  · have hguess : (n.log2 : ℤ) - (1 : ℕ).log2 - precision = -((53 - n.log2 : ℕ) : ℤ) := by
      have hone : (1 : ℕ).log2 = 0 := by decide
      rw [precision, hone]
      omega
    have hfits : ¬ n * 2 ^ (53 - n.log2) < 2 ^ 53 := by
      rw [not_lt]
      calc 2 ^ 53 = 2 ^ n.log2 * 2 ^ (53 - n.log2) := by rw [← Nat.pow_add]; congr 1; omega
        _ ≤ n * 2 ^ (53 - n.log2) := Nat.mul_le_mul_right _ hle
    have htest : ¬ n * twoTo (-(-((53 - n.log2 : ℕ) : ℤ))) <
        1 * twoTo (-((53 - n.log2 : ℕ) : ℤ)) * twoTo precision := by
      rw [neg_neg, twoTo_natCast, twoTo_neg_natCast, twoTo_natCast, precision]
      simpa using hfits
    rw [exponentFor, hguess, if_neg htest, minExponent]
    omega
  · calc n * 2 ^ (52 - n.log2) < 2 ^ (n.log2 + 1) * 2 ^ (52 - n.log2) :=
          Nat.mul_lt_mul_of_pos_right hlt (Nat.pow_pos (by decide))
      _ = 2 ^ precision := by rw [← Nat.pow_add, precision]; congr 1; omega

theorem round_natural (negative : Bool) (hpos : n ≠ 0) (hbits : n < 2 ^ precision) :
    ∃ k : ℕ, round negative n 1 = finite negative (n * 2 ^ k) (-k) := by
  obtain ⟨k, hexponent, hlt⟩ := exponentFor_one hpos hbits
  have hsignificand : significandAt n 1 (-k) = n * 2 ^ k := by
    rw [significandAt, neg_neg, twoTo_natCast, twoTo_neg_natCast]
    simp [roundQuotient, Nat.mod_one]
  have hne : n * 2 ^ k ≠ twoTo precision := by
    rw [twoTo_natCast]
    exact hlt.ne
  refine ⟨k, ?_⟩
  rw [round, hexponent, hsignificand, if_neg hne, bounded, if_neg]
  rw [maxExponent]
  omega

/-! ## The shortest decimal -/

theorem tenTo_natCast (k : ℕ) : tenTo k = 10 ^ k := by
  simp [tenTo]

theorem tenTo_neg_natCast (k : ℕ) : tenTo (-(k : ℤ)) = 1 := by
  simp [tenTo]

/-- Of the decimals without a fraction only the integer itself reads back. -/
theorem onGrid_readback_natural (hpos : n ≠ 0) (k power : ℕ) :
    (readback (n * 2 ^ k) (-k)).onGrid power =
      if n % 10 ^ power = 0 then some ⟨n / 10 ^ power, power⟩ else none := by
  have hscale : twoTo (-(k : ℤ) - 2) = 1 := twoTo_neg_natCast (k + 2) ▸ by congr 1; omega
  have hden : twoTo (2 - -(k : ℤ)) = 4 * 2 ^ k := by
    rw [show (2 - -(k : ℤ)) = ((k + 2 : ℕ) : ℤ) by omega, twoTo_natCast, Nat.pow_add, Nat.mul_comm]
  have hfour : 4 ≤ 4 * 2 ^ k := Nat.le_mul_of_pos_right _ (Nat.pow_pos (by decide))
  have hvalue : 4 * (n * 2 ^ k) = 4 * 2 ^ k * n := by ring
  have hdown : 4 * 2 ^ k * n / (4 * 2 ^ k * 10 ^ power) = n / 10 ^ power :=
    Nat.mul_div_mul_left _ _ (by omega)
  -- the distances to the neighbours are multiples of four, those to the ends at most two
  have hrest : 4 * 2 ^ k * n =
      n / 10 ^ power * (4 * 2 ^ k * 10 ^ power) + 4 * 2 ^ k * (n % 10 ^ power) := by
    conv_lhs => rw [← Nat.div_add_mod n (10 ^ power)]
    ring
  have hup : (n / 10 ^ power + 1) * (4 * 2 ^ k * 10 ^ power) =
      n / 10 ^ power * (4 * 2 ^ k * 10 ^ power) + 4 * 2 ^ k * 10 ^ power := by ring
  have hnext : 4 * 2 ^ k * (n % 10 ^ power) + 4 * 2 ^ k ≤ 4 * 2 ^ k * 10 ^ power := by
    rw [← Nat.mul_succ]
    exact Nat.mul_le_mul_left _ (Nat.mod_lt _ (Nat.pow_pos (by decide)))
  have hvaluePos : 4 ≤ 4 * 2 ^ k * n := hfour.trans (Nat.le_mul_of_pos_right _ (by omega))
  have hdistance : n % 10 ^ power ≠ 0 → 4 * 2 ^ k ≤ 4 * 2 ^ k * (n % 10 ^ power) :=
    fun hne => Nat.le_mul_of_pos_right _ (by omega)
  have hnone : n % 10 ^ power = 0 → 4 * 2 ^ k * (n % 10 ^ power) = 0 := fun hzero => by rw [hzero]; rfl
  unfold Readback.onGrid readback
  simp only [hscale, hden, tenTo_natCast, tenTo_neg_natCast, Nat.mul_one, hvalue, hdown, hup]
  generalize 4 * 2 ^ k * n = value at *
  generalize n / 10 ^ power * (4 * 2 ^ k * 10 ^ power) = down at *
  generalize 4 * 2 ^ k * 10 ^ power = unit at *
  generalize 4 * 2 ^ k * (n % 10 ^ power) = rest at *
  obtain ⟨low, hlow, hlowPos, hlowLe⟩ : ∃ d : ℕ,
      (if n * 2 ^ k = twoTo (precision - 1) then 1 else 2) = d ∧ 0 < d ∧ d ≤ 2 := by
    split
    · exact ⟨1, rfl, by decide, by decide⟩
    · exact ⟨2, rfl, by decide, by decide⟩
  rw [hlow]
  have hupMiss : ¬ (if (n * 2 ^ k % 2 == 0) = true then down + unit ≤ value + 2
      else down + unit < value + 2) := by
    split <;> omega
  have hdownHits : (if (n * 2 ^ k % 2 == 0) = true then value - low ≤ down
      else value - low < down) ↔ n % 10 ^ power = 0 := by
    by_cases hzero : n % 10 ^ power = 0
    · refine iff_of_true ?_ hzero
      split <;> omega
    · refine iff_of_false ?_ hzero
      split <;> omega
  simp only [hupMiss, decide_false, Bool.false_and, Bool.false_eq_true, if_false, hdownHits]

/-- The search ends at a grid on which the integer lies, at the latest at that of the units. -/
theorem search_readback_natural (hpos : n ≠ 0) (k : ℕ) {magnitude : ℤ} {steps length : ℕ}
    (hle : (length : ℤ) ≤ magnitude) (hlt : magnitude < length + steps) :
    ∃ power : ℕ, n % 10 ^ power = 0 ∧
      (readback (n * 2 ^ k) (-k)).search magnitude steps length = ⟨n / 10 ^ power, power⟩ := by
  induction steps generalizing length with
  | zero => omega
  | succ steps ih =>
    obtain ⟨power, hpower⟩ := Int.eq_ofNat_of_zero_le (Int.sub_nonneg_of_le hle)
    rw [Readback.search, hpower, onGrid_readback_natural hpos]
    by_cases hzero : n % 10 ^ power = 0
    · rw [if_pos hzero]
      exact ⟨power, hzero, rfl⟩
    · have hne : power ≠ 0 := by
        rintro rfl
        exact hzero (Nat.mod_one n)
      rw [if_neg hzero]
      exact ih (by omega) (by omega)

theorem log2_mul_two_pow (hpos : n ≠ 0) (k : ℕ) : (n * 2 ^ k).log2 = n.log2 + k := by
  have hne : n * 2 ^ k ≠ 0 := Nat.mul_ne_zero hpos (Nat.pow_pos (by decide)).ne'
  rw [Nat.log2_eq_iff hne, Nat.pow_add, Nat.add_right_comm, Nat.pow_add]
  exact ⟨Nat.mul_le_mul_right _ (Nat.log2_self_le hpos),
    Nat.mul_lt_mul_of_pos_right Nat.lt_log2_self (Nat.pow_pos (by decide))⟩

/-- The magnitude of an integer is estimated from its logarithm, which is enough to find its grid. -/
theorem magnitude_readback_natural (k : ℕ) (hlow : 10 ^ 15 ≤ n) (hbits : n < 2 ^ precision) :
    1 ≤ (readback (n * 2 ^ k) (-k)).magnitude ∧ (readback (n * 2 ^ k) (-k)).magnitude ≤ 17 := by
  have hpos : n ≠ 0 := by omega
  have hlogHigh : n.log2 < 53 := (Nat.log2_lt hpos).2 hbits
  have hlogLow : 49 ≤ n.log2 := (Nat.le_log2 hpos).2 (le_trans (by decide) hlow)
  have hguess : (((readback (n * 2 ^ k) (-k)).value.log2 : ℤ) -
      (readback (n * 2 ^ k) (-k)).denominator.log2) = n.log2 := by
    have hvalue : (readback (n * 2 ^ k) (-k)).value = n * 2 ^ (k + 2) := by
      show 4 * (n * 2 ^ k) * twoTo (-(k : ℤ) - 2) = _
      rw [show (-(k : ℤ) - 2) = -((k + 2 : ℕ) : ℤ) by omega, twoTo_neg_natCast, Nat.pow_add]
      ring
    have hdenominator : (readback (n * 2 ^ k) (-k)).denominator = 2 ^ (k + 2) := by
      show twoTo (2 - -(k : ℤ)) = _
      rw [show (2 - -(k : ℤ)) = ((k + 2 : ℕ) : ℤ) by omega, twoTo_natCast]
    rw [hvalue, hdenominator, log2_mul_two_pow hpos, Nat.log2_two_pow]
    omega
  rw [Readback.magnitude, hguess, Int.fdiv_eq_ediv_of_nonneg _ (by norm_num)]
  split
  · omega
  · split <;> omega

/-! ## Digits -/

theorem toDigits_mul_pow (hpos : n ≠ 0) (k : ℕ) :
    toDigits 10 (n * 10 ^ k) = toDigits 10 n ++ List.replicate k '0' := by
  induction k with
  | zero => simp
  | succ k ih =>
    have hne : 0 < n * 10 ^ k := Nat.mul_pos (by omega) (Nat.pow_pos (by decide))
    have hlast := Nat.toDigits_append_toDigits (b := 10) (d := 0) (by decide) hne (by decide)
    have hmul : n * 10 ^ (k + 1) = 10 * (n * 10 ^ k) + 0 := by
      rw [Nat.pow_succ]
      ring
    rw [hmul, ← hlast, ih, replicate_succ', append_assoc]
    rfl

theorem dropZeros_append (digits : List Char) :
    (dropZeros digits).1 ++ List.replicate (dropZeros digits).2 '0' = digits := by
  have hzeros : ∀ c ∈ digits.reverse.takeWhile (· = '0'), c = '0' := fun c hc => by
    simpa using mem_takeWhile_imp hc
  have hsplit := congrArg List.reverse
    (takeWhile_append_dropWhile (p := fun c => decide (c = '0')) (l := digits.reverse))
  rw [eq_replicate_of_mem hzeros, reverse_append, reverse_replicate, reverse_reverse] at hsplit
  have hlength := congrArg List.length hsplit
  rw [length_append, length_replicate] at hlength
  unfold dropZeros
  dsimp only
  rw [show digits.length - (digits.reverse.dropWhile (· = '0')).reverse.length =
    (digits.reverse.takeWhile (· = '0')).length by omega]
  exact hsplit

/-- The text of a great integer has all its digits. -/
theorem textOfPositive_natural (k : ℕ) (hlow : 10 ^ 15 ≤ n) (hbits : n < 2 ^ precision) :
    textOfPositive (n * 2 ^ k) (-k) = toString n ++ ".0" := by
  have hpos : n ≠ 0 := by omega
  obtain ⟨hleast, hgreatest⟩ := magnitude_readback_natural k hlow hbits
  obtain ⟨power, hpower, hshortest⟩ : ∃ power : ℕ, n % 10 ^ power = 0 ∧
      shortest (n * 2 ^ k) (-k) = ⟨n / 10 ^ power, power⟩ :=
    search_readback_natural hpos k (by exact_mod_cast hleast) (by omega)
  have hn : n / 10 ^ power * 10 ^ power = n := Nat.div_mul_cancel (Nat.dvd_of_mod_eq_zero hpower)
  have hquotient : n / 10 ^ power ≠ 0 := fun hzero => hpos (by rw [← hn, hzero, Nat.zero_mul])
  have hdigits : (dropZeros (toDigits 10 (n / 10 ^ power))).1 ++
      List.replicate ((dropZeros (toDigits 10 (n / 10 ^ power))).2 + power) '0' =
        toDigits 10 n := by
    rw [← replicate_append_replicate, ← append_assoc, dropZeros_append,
      ← toDigits_mul_pow hquotient, hn]
  have hlength := congrArg List.length hdigits
  rw [length_append, length_replicate] at hlength
  have hshort : (toDigits 10 n).length ≤ 16 :=
    (Nat.length_toDigits_le_iff (by decide) (by decide)).2 (hbits.trans (by decide))
  have hsome : 0 < (toDigits 10 n).length := length_pos_iff.2 Nat.toDigits_ne_nil
  rw [textOfPositive, hshortest]
  generalize dropZeros (toDigits 10 (n / 10 ^ power)) = dropped at *
  obtain ⟨kept, zeros⟩ := dropped
  dsimp only at hdigits hlength ⊢
  rw [if_pos (by omega), positional, if_neg (by omega), if_pos (by omega)]
  rw [show ((kept.length : ℤ) + zeros + power - kept.length).toNat = zeros + power by omega, hdigits,
    Nat.toString_eq_ofList_toDigits]

/-! ## Reading -/

theorem isInteger_ofDecimal (negative : Bool) (hbound : n ≤ 2 ^ precision) (length : ℕ) :
    IsInteger (ofDecimal negative n length 0) (if negative then -(n : ℤ) else n) := by
  have hlong : n < 2 ^ 63 := hbound.trans_lt (by decide)
  by_cases hzero : n = 0
  · subst hzero
    exact isInteger_finite hlong (by simp [numerator]) fun h => absurd h (by decide)
  have hround : ofDecimal negative n length 0 = round negative n 1 := by
    have hlength : ¬ (0 : ℤ) + length < -decimalBound := by
      rw [decimalBound]
      omega
    unfold ofDecimal
    rw [if_neg (by simpa using hzero), if_neg (by decide), if_neg hlength]
    simp [tenTo]
  rw [hround]
  rcases hbound.lt_or_eq with hlt | rfl
  · obtain ⟨k, hk⟩ := round_natural negative hzero hlt
    rw [hk]
    refine isInteger_finite hlong ?_ fun hlow => textOfPositive_natural k hlow hlt
    rw [numerator, denominator, neg_neg, twoTo_neg_natCast, twoTo_natCast, Nat.mul_one]
  · have htop : round negative (2 ^ precision) 1 = finite negative (2 ^ 52) 1 := by
      cases negative <;> decide
    rw [htop]
    exact isInteger_finite hlong (by decide) fun _ => by decide

theorem spanDigits_of_isDigit {ds : List Char} (h : ∀ c ∈ ds, c.isDigit = true) :
    spanDigits ds = (ds.map (fun c => c.toNat - '0'.toNat), []) := by
  induction ds with
  | nil => rfl
  | cons c rest ih =>
    rw [forall_mem_cons] at h
    rw [spanDigits, Text.digit?_eq, if_pos h.1, ih h.2]
    rfl

theorem ofDigits_map (ds : List Char) :
    ofDigits (ds.map (fun c => c.toNat - '0'.toNat)) = ofDigitChars 10 ds 0 := by
  rw [ofDigits, foldl_map, ofDigitChars]
  congr 1
  funext value c
  rw [Nat.mul_comm]

theorem readUnsigned_of_isDigits {ds : List Char} (h : IsDigits ds) :
    readUnsigned negative ds =
      some (ofDecimal negative (ofDigitChars 10 ds 0) ds.length 0) := by
  rw [readUnsigned, spanDigits_of_isDigit h.2, ← ofDigits_map]
  simp [readExponent, h.1]

/-- An integer is written in decimal: an optional sign and digits. -/
def Writes (cs : List Char) (i : ℤ) : Prop :=
  ∃ ds, IsDigits ds ∧ (cs = '-' :: ds ∧ i = -(ofDigitChars 10 ds 0 : ℤ) ∨
    (cs = ds ∨ cs = '+' :: ds) ∧ i = ofDigitChars 10 ds 0)

theorem toLower_of_isDigit {c : Char} (h : c.isDigit = true) : c.toLower = c := by
  unfold Char.toLower
  rw [dif_neg]
  unfold Char.isDigit at h
  simp only [Bool.and_eq_true, decide_eq_true_eq, ge_iff_le, UInt32.le_iff_toNat_le] at h ⊢
  have hnine : '9'.val.toNat < 'A'.val.toNat := by decide
  omega

/-- An integer of at most 53 bits is read exactly. -/
theorem exists_readChars_of_writes {cs : List Char} {i : ℤ} (h : Writes cs i)
    (hbound : i.natAbs ≤ 2 ^ precision) : ∃ value, readChars cs = some value ∧ IsInteger value i := by
  obtain ⟨ds, hdigits, hsign⟩ := h
  obtain ⟨negative, hspan, rfl⟩ : ∃ negative, spanSign cs = (negative, ds) ∧
      (if negative then -(ofDigitChars 10 ds 0 : ℤ) else ofDigitChars 10 ds 0) = i := by
    rcases hsign with ⟨rfl, rfl⟩ | ⟨rfl | rfl, rfl⟩
    · exact ⟨true, rfl, rfl⟩
    · refine ⟨false, ?_, rfl⟩
      unfold spanSign
      split
      · exact absurd (hdigits.2 '-' mem_cons_self) (by decide)
      · exact absurd (hdigits.2 '+' mem_cons_self) (by decide)
      · rfl
    · exact ⟨false, rfl, rfl⟩
  -- digits are no letters, so they are none of the words
  have hword : ∀ word : String, word.toList.head?.map Char.isDigit = some false →
      String.ofList (ds.map Char.toLower) ≠ word := by
    rintro _ hhead rfl
    obtain ⟨c, rest, rfl⟩ := exists_cons_of_ne_nil hdigits.1
    have hdigit := hdigits.2 c mem_cons_self
    simp [toLower_of_isDigit hdigit, hdigit] at hhead
  refine ⟨_, ?_, isInteger_ofDecimal negative ?_ ds.length⟩
  · rw [readChars, hspan]
    dsimp only
    rw [if_neg (hword _ rfl), if_neg, readUnsigned_of_isDigits hdigits]
    rintro (hinf | hinf) <;> exact hword _ rfl hinf
  · cases negative <;> simpa using hbound

end RobotBlocks.Binary64
