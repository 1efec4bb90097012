import RobotBlocks.Proofs.Grammar.Token
import RobotBlocks.Text.Count

/-!
# Texts that are counts

A text is a count if it consists of decimal digits, with or without a plus sign in front, and their
value is less than 2^64. Reading goes from left to right and gives up as soon as the value is too large;
since more digits never make it smaller, it accepts exactly the counts (`readCount_eq_ok_iff`).
-/

set_option autoImplicit false

namespace RobotBlocks.Text

open List

open Grammar (IsDigits)

/-- The text is a decimal writing of the count, with or without a plus sign in front. -/
def IsCount (text : String) (count : Nat) : Prop :=
  ∃ digits, IsDigits digits ∧ (text.toList = digits ∨ text.toList = '+' :: digits) ∧
    Nat.ofDigitChars 10 digits 0 = count ∧ count ≤ maxCount

/-- The decimal digits have the values that they have in a number. -/
theorem digit?_eq (c : Char) :
    digit? c = if c.isDigit then some (c.toNat - '0'.toNat) else none := by
  have hdigit : ('0' ≤ c ∧ c ≤ '9') ↔ c.isDigit = true := by
    simp only [Char.isDigit, Bool.and_eq_true, decide_eq_true_eq, Char.le_def, ge_iff_le]
  unfold digit?
  simp only [hdigit]

theorem le_ofDigitChars (digits : List Char) (value : Nat) :
    value ≤ Nat.ofDigitChars 10 digits value := by
  induction digits generalizing value with
  | nil => exact Nat.le_refl value
  | cons c rest ih =>
    have hrest := ih (10 * value + (c.toNat - '0'.toNat))
    rw [Nat.ofDigitChars_cons]
    omega

/-- Digits are read to the number they are, up to the greatest count. -/
theorem readDigits_eq_ok_iff {cs : List Char} {value count : Nat} (hvalue : value ≤ maxCount) :
    readDigits value cs = .ok count ↔
      (∀ c ∈ cs, c.isDigit = true) ∧ Nat.ofDigitChars 10 cs value = count ∧ count ≤ maxCount := by
  induction cs generalizing value with
  | nil =>
    simp only [readDigits, Except.ok.injEq, not_mem_nil, false_implies, implies_true, true_and,
      Nat.ofDigitChars, foldl_nil]
    constructor
    · rintro rfl
      exact ⟨rfl, hvalue⟩
    · rintro ⟨rfl, -⟩
      rfl
  | cons c rest ih =>
    rw [readDigits, digit?_eq, Nat.ofDigitChars_cons, forall_mem_cons]
    by_cases hdigit : c.isDigit = true
    · simp only [hdigit, if_true, true_and, Nat.mul_comm value 10]
      split
      · next hle => exact ih hle
      · next hlarge =>
        -- the value is too large already, and the digits to come make it no smaller
        have hmore := le_ofDigitChars rest (10 * value + (c.toNat - '0'.toNat))
        simp only [reduceCtorEq, false_iff]
        rintro ⟨-, rfl, hle⟩
        omega
    · simp [hdigit]

/-- A text is read as a count exactly if it is a writing of it. -/
theorem readCount_eq_ok_iff {text : String} {count : Nat} :
    readCount text = .ok count ↔ IsCount text count := by
  have hzero : 0 ≤ maxCount := Nat.zero_le _
  unfold readCount readCountChars IsCount
  split
  · next hnil =>
    simp only [hnil, reduceCtorEq, false_iff]
    rintro ⟨digits, hdigits, hempty | hplus, -⟩
    · exact hdigits.1 hempty.symm
    · cases hplus
  · next hplus =>
    simp only [hplus, reduceCtorEq, false_iff]
    rintro ⟨digits, hdigits, rfl | heq, -⟩
    · exact absurd (hdigits.2 '+' mem_cons_self) (by decide)
    · exact hdigits.1 (List.cons.inj heq).2.symm
  · next rest hrest hplus =>
    rw [hplus, readDigits_eq_ok_iff hzero]
    constructor
    · rintro ⟨hall, hcount, hle⟩
      exact ⟨rest, ⟨hrest, hall⟩, .inr rfl, hcount, hle⟩
    · rintro ⟨digits, hdigits, rfl | heq, hcount⟩
      · exact absurd (hdigits.2 '+' mem_cons_self) (by decide)
      · obtain rfl := (List.cons.inj heq).2
        exact ⟨hdigits.2, hcount⟩
  · next hnil _ hplus =>
    rw [readDigits_eq_ok_iff hzero]
    constructor
    · rintro ⟨hall, hcount, hle⟩
      exact ⟨_, ⟨hnil, hall⟩, .inl rfl, hcount, hle⟩
    · rintro ⟨digits, hdigits, rfl | heq, hcount⟩
      · exact ⟨hdigits.2, hcount⟩
      · exact absurd heq (hplus digits)

end RobotBlocks.Text
