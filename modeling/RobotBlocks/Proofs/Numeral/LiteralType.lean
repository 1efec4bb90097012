import RobotBlocks.Proofs.Numeral.Literal

/-!
# The types of number literals

A class reads the type of a literal off its text: a point or an exponent makes it a `double`, or a
`float` if an `F` follows, an `L` at its end makes it a `long`, and plain digits are an `int`. Literals
of the integral types have to be within their range.

The literals of a program have the types that one expects from their values: those of whole numbers in
the range of `int` are of that type, and all others are of type `double`, as their texts always have a
point or an exponent.
-/

set_option autoImplicit false

namespace RobotBlocks

open Grammar List
open Binary64 (maxInteger minInteger finite)

namespace Numeral

variable {value : Binary64} {i : ℤ}

/-- The whole number that digits with an optional minus stand for. -/
def wholeValue? : List Char → Option Int
  | '-' :: ds => if IsDigits ds then some (-Nat.ofDigitChars 10 ds 0) else none
  | ds => if IsDigits ds then some (Nat.ofDigitChars 10 ds 0) else none

/-- The type of a literal, if it has one. The names of the numbers that are not finite are those of
members of `Double`, so they have a point as well. -/
def literalType? (literal : String) : Option NumericType :=
  let cs := literal.toList
  if hasPoint literal then some (if cs.getLast? = some 'F' then .float else .double)
  else if cs.getLast? = some 'L' then
    (wholeValue? cs.dropLast).bind fun value =>
      if -longBound ≤ value ∧ value < longBound then some .long else none
  else
    (wholeValue? cs).bind fun value =>
      if -maxInt - 1 ≤ value ∧ value ≤ maxInt then some .int else none

/-! ## Whole numbers -/

theorem toList_toString_int (i : ℤ) :
    (toString i).toList =
      if i < 0 then '-' :: Nat.toDigits 10 i.natAbs else Nat.toDigits 10 i.natAbs := by
  rw [toString_int]
  split <;> simp

theorem wholeValue?_of_isDigits {ds : List Char} (h : IsDigits ds) :
    wholeValue? ds = some (Nat.ofDigitChars 10 ds 0 : ℤ) := by
  unfold wholeValue?
  split
  · have hminus := h.2 '-' mem_cons_self
    exact absurd hminus (by decide)
  · rw [if_pos h]

theorem wholeValue?_toString_int (i : ℤ) : wholeValue? (toString i).toList = some i := by
  have hdigits := isDigits_toDigits i.natAbs
  have hvalue : Nat.ofDigitChars 10 (Nat.toDigits 10 i.natAbs) 0 = i.natAbs :=
    Nat.ofDigitChars_toDigits (by decide) (by decide)
  rw [toList_toString_int]
  split
  · rw [wholeValue?, if_pos hdigits, hvalue]
    congr 1
    omega
  · rw [wholeValue?_of_isDigits hdigits, hvalue]
    congr 1
    omega

theorem isDigit_or_minus_of_mem_toString_int {c : Char} (h : c ∈ (toString i).toList) :
    c = '-' ∨ c.isDigit = true := by
  rw [toList_toString_int] at h
  split at h
  · rcases mem_cons.1 h with rfl | h
    · exact .inl rfl
    · exact .inr ((isDigits_toDigits _).2 c h)
  · exact .inr ((isDigits_toDigits _).2 c h)

theorem not_mem_toString_int {c : Char} (hminus : c ≠ '-') (hdigit : c.isDigit = false) :
    c ∉ (toString i).toList := by
  intro h
  rcases isDigit_or_minus_of_mem_toString_int h with rfl | h
  · exact hminus rfl
  · rw [h] at hdigit
    cases hdigit

theorem hasPoint_eq_true_iff {text : String} :
    hasPoint text = true ↔ '.' ∈ text.toList ∨ 'e' ∈ text.toList := by
  simp only [hasPoint, any_eq_true, Bool.or_eq_true, decide_eq_true_eq]
  constructor
  · rintro ⟨c, hc, rfl | rfl⟩
    · exact .inl hc
    · exact .inr hc
  · rintro (h | h)
    · exact ⟨_, h, .inl rfl⟩
    · exact ⟨_, h, .inr rfl⟩

theorem hasPoint_toString_int (i : ℤ) : hasPoint (toString i) = false := by
  rw [Bool.eq_false_iff, Ne, hasPoint_eq_true_iff]
  rintro (h | h) <;> exact not_mem_toString_int (by decide) (by decide) h

theorem literalType?_toString_int (h : i.natAbs ≤ maxInt) :
    literalType? (toString i) = some .int := by
  have hlast : (toString i).toList.getLast? ≠ some 'L' := by
    intro hlast
    exact not_mem_toString_int (by decide) (by decide) (mem_of_getLast? hlast)
  have hrange : -maxInt - 1 ≤ i ∧ i ≤ maxInt := by omega
  unfold literalType?
  simp only [hasPoint_toString_int, Bool.false_eq_true, if_false, if_neg hlast,
    wholeValue?_toString_int, Option.bind_some, if_pos hrange]

theorem literalType?_toString_int_long (h : i.natAbs < longBound) :
    literalType? (toString i ++ "L") = some .long := by
  have hpoint : hasPoint (toString i ++ "L") = false := by
    have hplain := hasPoint_toString_int i
    unfold hasPoint at hplain ⊢
    simp only [String.toList_append, any_append, hplain]
    decide
  have hchars : (toString i ++ "L").toList = (toString i).toList ++ ['L'] := by simp
  have hrange : -longBound ≤ i ∧ i < longBound := by omega
  unfold literalType?
  simp only [hpoint, Bool.false_eq_true, if_false, hchars, getLast?_concat,
    dropLast_concat, if_true, wholeValue?_toString_int, Option.bind_some, if_pos hrange]

/-! ## The numbers of a program -/

theorem absBelow_of_fitsInt (h : fitsInt value = true) :
    value.isWhole = true ∧ value.absBelow plainBound = true := by
  obtain ⟨hwhole, hbound⟩ := Bool.and_eq_true_iff.1 h
  refine ⟨hwhole, ?_⟩
  cases value with
  | nan | infinite => cases hwhole
  | finite negative significand exponent =>
    have hpos := Binary64.twoTo_pos (-exponent)
    have hle := of_decide_eq_true hbound
    refine decide_eq_true (Nat.lt_of_le_of_lt hle ?_)
    exact Nat.mul_lt_mul_of_pos_right (by decide) hpos

theorem classText_of_fitsInt (h : fitsInt value = true) :
    classText value = toString value.toInteger := by
  obtain ⟨hwhole, hbelow⟩ := absBelow_of_fitsInt h
  unfold classText scriptText
  simp only [h, hwhole, hbelow]
  rfl

theorem natAbs_toInteger_le {negative : Bool} {significand : ℕ} {exponent : ℤ} :
    (finite negative significand exponent).toInteger.natAbs ≤
      Binary64.numerator significand exponent / Binary64.denominator exponent := by
  have hlow : minInteger ≤ 0 := by decide
  have hhigh : 0 ≤ maxInteger := by decide
  unfold Binary64.toInteger
  dsimp only
  rw [← Int.natCast_ediv]
  generalize Binary64.numerator significand exponent / Binary64.denominator exponent = whole
  have hclamped : ∀ i : ℤ, i.natAbs ≤ whole →
      (max minInteger (min maxInteger i)).natAbs ≤ whole := by
    intro i hi
    rcases max_choice minInteger (min maxInteger i) with h | h
    · have := le_max_right minInteger (min maxInteger i)
      have := min_choice maxInteger i
      omega
    · have := min_choice maxInteger i
      have := min_le_right maxInteger i
      omega
  cases negative with
  | true | false => exact hclamped _ (by simp)

theorem natAbs_toInteger_le_maxInt (h : fitsInt value = true) :
    value.toInteger.natAbs ≤ maxInt := by
  obtain ⟨hwhole, hbound⟩ := Bool.and_eq_true_iff.1 h
  cases value with
  | nan | infinite => cases hwhole
  | finite negative significand exponent =>
    have hpos : 0 < Binary64.denominator exponent := Binary64.twoTo_pos (-exponent)
    refine Nat.le_trans natAbs_toInteger_le ?_
    exact (Nat.div_le_iff_le_mul_add_pred hpos).2 (by
      have hle := of_decide_eq_true hbound
      rw [Nat.mul_comm] at hle
      omega)

theorem natAbs_toInteger_lt_longBound (hfinite : value.isFinite = true)
    (h : value.absBelow longBound = true) : value.toInteger.natAbs < longBound := by
  cases value with
  | nan | infinite => cases hfinite
  | finite negative significand exponent =>
    refine Nat.lt_of_le_of_lt natAbs_toInteger_le ?_
    exact (Nat.div_lt_iff_lt_mul (Binary64.twoTo_pos (-exponent))).2 (of_decide_eq_true h)

/-- The shortest text of a number always has a point or an exponent. -/
theorem hasPoint_text (negative : Bool) (significand : ℕ) (exponent : ℤ) :
    hasPoint (finite negative significand exponent).text = true := by
  have htext : hasPoint (if significand = 0 then "0.0"
      else Binary64.textOfPositive significand exponent) = true := by
    rw [hasPoint_eq_true_iff]
    split
    · exact .inl (by decide)
    · unfold Binary64.textOfPositive Binary64.positional Binary64.scientific
      dsimp only
      split
      · left
        split
        · simp
        · split <;> simp
      · right
        simp
  unfold Binary64.text hasPoint at *
  simp only [String.toList_append, any_append, htext, Bool.or_true]

theorem hasPoint_classText (hfinite : value.isFinite = true) (h : fitsInt value = false) :
    hasPoint (classText value) = true := by
  unfold classText
  simp only [h, Bool.not_false, Bool.true_and]
  cases hpoint : hasPoint (scriptText value) with
  | true => simpa using hpoint
  | false =>
    -- only whole numbers have texts without a point
    have hwhole : value.isWhole = true := by
      cases value with
      | nan | infinite => cases hfinite
      | finite negative significand exponent =>
        by_contra hwhole
        have htext : scriptText (.finite negative significand exponent) =
            (finite negative significand exponent).text := by
          unfold scriptText
          rw [if_neg (by simp [hwhole])]
        rw [htext, hasPoint_text] at hpoint
        cases hpoint
    rw [if_pos (by simp [hwhole])]
    unfold hasPoint
    simp

/-- Texts of digits with a point or an exponent have no mark at their end. -/
theorem not_mem_textOfPositive (significand : ℕ) (exponent : ℤ) :
    'F' ∉ (Binary64.textOfPositive significand exponent).toList := by
  unfold Binary64.textOfPositive
  dsimp only
  generalize (Binary64.shortest significand exponent).digits = number
  have hdigits : 'F' ∉ (Binary64.dropZeros (Nat.toDigits 10 number)).1 := by
    intro h
    rw [Binary64.dropZeros, mem_reverse] at h
    have hmem := mem_reverse.1 ((dropWhile_sublist _).subset h)
    exact absurd ((isDigits_toDigits number).2 'F' hmem) (by decide)
  generalize (Binary64.dropZeros (Nat.toDigits 10 number)).1 = ds at hdigits ⊢
  split
  · unfold Binary64.positional
    dsimp only
    split
    · simp [hdigits]
    · split
      · simp [hdigits]
      · have htake := fun n => mt (mem_of_mem_take (i := n)) hdigits
        have hdrop := fun n => mt (mem_of_mem_drop (i := n)) hdigits
        simp [htake, hdrop]
  · have hexponent : ∀ i : ℤ, 'F' ∉ i.repr.toList := fun i =>
      not_mem_toString_int (by decide) (by decide)
    unfold Binary64.scientific
    dsimp only
    split
    · simp only [mem_cons, not_or] at hdigits
      simp [hdigits, hexponent]
    · simp [hdigits, hexponent]

theorem not_mem_classText (hfinite : value.isFinite = true) : 'F' ∉ (classText value).toList := by
  have hscript : 'F' ∉ (scriptText value).toList := by
    unfold scriptText
    split
    · exact not_mem_toString_int (by decide) (by decide)
    · cases value with
      | nan | infinite => cases hfinite
      | finite negative significand exponent =>
        unfold Binary64.text
        dsimp only
        have hpositive := not_mem_textOfPositive significand exponent
        split <;> split <;> simp [hpositive]
  unfold classText
  dsimp only
  split
  · simp [hscript]
  · exact hscript

/-- The literal of a number is an `int` or a `double`. -/
theorem literalType?_literal (value : Binary64) :
    literalType? (literal .java value) =
      some (if fitsInt value then .int else .double) := by
  cases hfits : fitsInt value with
  | true =>
    have hliteral : literal .java value = toString value.toInteger := by
      cases value with
      | nan | infinite => cases hfits
      | finite => exact classText_of_fitsInt hfits
    rw [hliteral, literalType?_toString_int (natAbs_toInteger_le_maxInt hfits)]
    rfl
  | false =>
    cases value with
    | nan => decide
    | infinite negative => cases negative <;> decide
    | finite negative significand exponent =>
      have hlast : (classText (.finite negative significand exponent)).toList.getLast? ≠
          some 'F' := by
        intro hlast
        exact not_mem_classText rfl (mem_of_getLast? hlast)
      have hpoint := hasPoint_classText rfl hfits
      unfold literalType? literal
      simp only [hpoint, if_true, if_neg hlast]
      rfl

theorem literalType?_classText_float (hfinite : value.isFinite = true) (h : fitsInt value = false) :
    literalType? (classText value ++ "F") = some .float := by
  have hpoint : hasPoint (classText value ++ "F") = true := by
    have hplain := hasPoint_classText hfinite h
    unfold hasPoint at hplain ⊢
    simp only [String.toList_append, any_append, hplain, Bool.true_or]
  have hchars : (classText value ++ "F").toList = (classText value).toList ++ ['F'] := by simp
  unfold literalType?
  simp only [hpoint, if_true, hchars, getLast?_concat]

end Numeral

end RobotBlocks
