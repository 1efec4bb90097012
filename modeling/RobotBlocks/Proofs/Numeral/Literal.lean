import RobotBlocks.Proofs.Binary64.Digits
import RobotBlocks.Proofs.Expr.Tokens

/-!
# Number literals

The literal of every finite number in range is a number of the grammar, with a minus in front if the
number is negative (`isLiteral_literal`). Each of the three notations has digits wherever the grammar
asks for them: plain digits, digits with a point among them, and digits with an exponent. The last two
take the digits without the zeros at their end, of which at least one is left because they are not
all zero.
-/

set_option autoImplicit false

namespace RobotBlocks

open Grammar List

variable {ds : List Char}

theorem isDigits_append {ds' : List Char} (h : IsDigits ds) (h' : ∀ c ∈ ds', c.isDigit = true) :
    IsDigits (ds ++ ds') := by
  refine ⟨by simp [h.1], fun c hc => ?_⟩
  rcases mem_append.1 hc with hc | hc
  · exact h.2 c hc
  · exact h' c hc

theorem isDigit_of_mem_replicate {n : ℕ} : ∀ c ∈ List.replicate n '0', c.isDigit = true := by
  intro c hc
  rw [eq_of_mem_replicate hc]
  decide

theorem isDigits_toDigits (n : ℕ) : IsDigits (Nat.toDigits 10 n) :=
  ⟨Nat.toDigits_ne_nil, fun _ hc => Nat.isDigit_of_mem_toDigits (by decide) (by decide) hc⟩

theorem isDigits_zero : IsDigits ['0'] := ⟨by simp, by simp⟩

theorem isNumber_of_isDigits (h : IsDigits ds) : IsNumber ds := by
  simpa using IsNumber.intro h .absent .absent

theorem isNumber_point {whole fraction : List Char} (hwhole : IsDigits whole)
    (hfraction : IsDigits fraction) : IsNumber (whole ++ '.' :: fraction) := by
  simpa using IsNumber.intro hwhole (.digits hfraction) .absent

theorem toString_int (i : ℤ) :
    toString i = if i < 0 then "-" ++ toString i.natAbs else toString i.natAbs := by
  cases i with
  | ofNat n => rfl
  | negSucc n => rw [if_pos (Int.negSucc_lt_zero n)]; rfl

theorem isDigits_toString_nat (n : ℕ) : IsDigits (toString n).toList := by
  rw [Nat.toString_eq_ofList_toDigits, String.toList_ofList]
  exact isDigits_toDigits n

theorem isLiteral_toString_int (i : ℤ) : IsLiteral (toString i) := by
  have hnumber := isNumber_of_isDigits (isDigits_toString_nat i.natAbs)
  rw [toString_int]
  split
  · exact .negative hnumber (by simp)
  · exact .positive hnumber

theorem isExponent_toString_int (i : ℤ) : IsExponent ('e' :: (toString i).toList) := by
  have hdigits := isDigits_toString_nat i.natAbs
  rw [toString_int]
  split
  · simpa using IsExponent.negative hdigits
  · exact .digits hdigits

namespace Binary64

/-! ## Digits with a point or an exponent -/

theorem ofDigitChars_of_forall_eq_zero {cs : List Char} (h : ∀ c ∈ cs, c = '0') :
    Nat.ofDigitChars 10 cs 0 = 0 := by
  induction cs with
  | nil => rfl
  | cons c cs ih =>
    obtain rfl : c = '0' := h c mem_cons_self
    have hcs := ih (forall_mem_cons.1 h).2
    simpa [Nat.ofDigitChars] using hcs

/-- Of the digits of a positive number some are left without the zeros at their end. -/
theorem isDigits_dropZeros {n : ℕ} (h : 0 < n) : IsDigits (dropZeros (Nat.toDigits 10 n)).1 := by
  refine ⟨fun hnil => ?_, fun c hc => ?_⟩
  · rw [dropZeros, reverse_eq_nil_iff, dropWhile_eq_nil_iff] at hnil
    have hzero : Nat.ofDigitChars 10 (Nat.toDigits 10 n) 0 = 0 :=
      ofDigitChars_of_forall_eq_zero (by simpa using hnil)
    rw [Nat.ofDigitChars_toDigits (by decide) (by decide)] at hzero
    omega
  · rw [dropZeros, mem_reverse] at hc
    exact (isDigits_toDigits n).2 c (mem_reverse.1 ((dropWhile_sublist _).subset hc))

theorem isNumber_positional (h : IsDigits ds) (point : ℤ) :
    IsNumber (positional ds point).toList := by
  unfold positional
  simp only
  split
  · have hfraction : IsDigits (List.replicate (-point).toNat '0' ++ ds) := by
      refine ⟨by simp [h.1], fun c hc => ?_⟩
      rcases mem_append.1 hc with hc | hc
      · exact isDigit_of_mem_replicate c hc
      · exact h.2 c hc
    simpa using isNumber_point isDigits_zero hfraction
  · split
    · simpa using isNumber_point (isDigits_append h isDigit_of_mem_replicate) isDigits_zero
    · next hpos hlength =>
      have htake : IsDigits (ds.take point.toNat) := by
        refine ⟨?_, fun c hc => h.2 c (mem_of_mem_take hc)⟩
        rw [Ne, take_eq_nil_iff]
        rintro (hzero | hnil)
        · omega
        · exact h.1 hnil
      have hdrop : IsDigits (ds.drop point.toNat) := by
        refine ⟨?_, fun c hc => h.2 c (mem_of_mem_drop hc)⟩
        rw [Ne, drop_eq_nil_iff]
        omega
      simpa using isNumber_point htake hdrop

theorem isNumber_scientific (h : IsDigits ds) (exponent : ℤ) :
    IsNumber (scientific ds exponent).toList := by
  have hexponent := isExponent_toString_int exponent
  unfold scientific
  split
  · next first second rest =>
    have hfirst : IsDigits [first] := ⟨by simp, by simpa using h.2 first (by simp)⟩
    have hrest : IsDigits (second :: rest) :=
      ⟨by simp, fun c hc => h.2 c (mem_cons_of_mem _ hc)⟩
    simpa using .intro hfirst (.digits hrest) hexponent
  · simpa using IsNumber.intro h .absent hexponent

theorem isNumber_textOfPositive {significand : ℕ} {exponent : ℤ}
    (h : 0 < (shortest significand exponent).digits) :
    IsNumber (textOfPositive significand exponent).toList := by
  have hdigits := isDigits_dropZeros h
  unfold textOfPositive
  simp only
  split
  · exact isNumber_positional hdigits _
  · exact isNumber_scientific hdigits _

theorem isLiteral_text {negative : Bool} {significand : ℕ} {exponent : ℤ}
    (h : InRange (finite negative significand exponent)) :
    IsLiteral (finite negative significand exponent).text := by
  obtain ⟨hbits, hleast, hgreatest⟩ := h _ _ _ rfl
  have hnumber : IsNumber (if significand = 0 then "0.0"
      else textOfPositive significand exponent).toList := by
    split
    · exact isNumber_point isDigits_zero isDigits_zero
    · next hne => exact isNumber_textOfPositive (digits_shortest_pos hne hbits hleast hgreatest)
  cases negative with
  | true => exact .negative hnumber (by simp [text])
  | false => exact .positive (by simpa [text] using hnumber)

end Binary64

namespace Numeral

variable {negative : Bool} {significand : ℕ} {exponent : ℤ}

theorem isLiteral_scriptText (h : Binary64.InRange (.finite negative significand exponent)) :
    IsLiteral (scriptText (.finite negative significand exponent)) := by
  unfold scriptText
  split
  · exact isLiteral_toString_int _
  · exact Binary64.isLiteral_text h

/-- A number without a point and an exponent is made of digits only. -/
theorem isDigits_of_isNumber {cs : List Char} (h : IsNumber cs)
    (hpoint : cs.any (fun c => c = '.' || c = 'e') = false) : IsDigits cs := by
  obtain ⟨hwhole, hfraction, hexponent⟩ := h
  simp only [any_append, Bool.or_eq_false_iff] at hpoint
  cases hfraction with
  | digits => simp at hpoint
  | absent =>
    cases hexponent with
    | absent => simpa using hwhole
    | digits | negative => simp at hpoint

/-- What a class writes for a finite number is a literal. -/
theorem isLiteral_classText (h : Binary64.InRange (.finite negative significand exponent)) :
    IsLiteral (classText (.finite negative significand exponent)) := by
  have hliteral := isLiteral_scriptText h
  unfold classText
  simp only
  split
  · next hplain =>
    have hpoint : hasPoint (scriptText (.finite negative significand exponent)) = false := by
      simp only [Bool.and_eq_true, Bool.not_eq_true'] at hplain
      exact hplain.2
    unfold hasPoint at hpoint
    cases hliteral with
    | positive hnumber =>
      refine .positive ?_
      simpa using isNumber_point (isDigits_of_isNumber hnumber hpoint) isDigits_zero
    | @negative digits hnumber hminus =>
      have hdigits : digits.any (fun c => c = '.' || c = 'e') = false := by
        simpa [hminus] using hpoint
      exact .negative (isNumber_point (isDigits_of_isNumber hnumber hdigits) isDigits_zero)
        (by simp [hminus])
  · exact hliteral

/-- The literal of a finite number in range is a number of the grammar, perhaps with a minus. -/
theorem isLiteral_literal (target : Target)
    (h : Binary64.InRange (.finite negative significand exponent)) :
    IsLiteral (literal target (.finite negative significand exponent)) := by
  cases target with
  | javaScript => exact isLiteral_scriptText h
  | java => exact isLiteral_classText h

end Numeral

end RobotBlocks
