/-!
# Reading counts

A count is written in decimal digits, with an optional plus sign in front, and is less than 2^64.
Reading goes from left to right and stops at the first fault: a character that is no digit counts
before the overflow it would have caused.
-/

set_option autoImplicit false

namespace RobotBlocks.Text

inductive CountFault where
  | missing
  | badDigit
  | tooLarge
  deriving DecidableEq, Repr

def CountFault.message : CountFault → String
  | .missing => "cannot parse integer from empty string"
  | .badDigit => "invalid digit found in string"
  | .tooLarge => "number too large to fit in target type"

def maxCount : Nat := Nat.pow 2 64 - 1

def digit? (c : Char) : Option Nat :=
  if '0' ≤ c ∧ c ≤ '9' then some (c.toNat - '0'.toNat) else none

def hexDigit? (c : Char) : Option Nat :=
  if '0' ≤ c ∧ c ≤ '9' then some (c.toNat - '0'.toNat)
  else if 'a' ≤ c ∧ c ≤ 'f' then some (c.toNat - 'a'.toNat + 10)
  else if 'A' ≤ c ∧ c ≤ 'F' then some (c.toNat - 'A'.toNat + 10)
  else none

/-- Reads the remaining digits after those that gave the value so far. -/
def readDigits (value : Nat) : List Char → Except CountFault Nat
  | [] => .ok value
  | c :: rest =>
    match digit? c with
    | none => .error .badDigit
    | some d =>
      if value * 10 + d ≤ maxCount then readDigits (value * 10 + d) rest else .error .tooLarge

def readCountChars : List Char → Except CountFault Nat
  | [] => .error .missing
  | '+' :: [] => .error .badDigit
  | '+' :: rest => readDigits 0 rest
  | cs => readDigits 0 cs

def readCount (s : String) : Except CountFault Nat := readCountChars s.toList

end RobotBlocks.Text
