/-!
# Binary64 numbers

The numbers of a program are binary64 numbers, kept here as data: a sign, a significand and an
exponent to the base two. Every question about such a number is then a question about natural
numbers, answered exactly: whether it is whole, how it compares with a bound, what it is without its
fraction.

`Binary64.round` gives the number nearest to a quotient of natural numbers, ties to the even
significand; all numbers of a program arise from it.
-/

set_option autoImplicit false

namespace RobotBlocks

inductive Binary64 where
  | nan
  | infinite (negative : Bool)
  /-- The number `significand * 2 ^ exponent` with the given sign. -/
  | finite (negative : Bool) (significand : Nat) (exponent : Int)
  deriving DecidableEq, Repr

namespace Binary64

def minExponent : Int := -1074

def maxExponent : Int := 971

/-- Two to this power bounds the significands. -/
def precision : Nat := 53

/-- Two to the power of an exponent that is not negative, and one otherwise. -/
def twoTo (exponent : Int) : Nat := Nat.pow 2 exponent.toNat

/-- Ten to the power of an exponent that is not negative, and one otherwise. -/
def tenTo (exponent : Int) : Nat := Nat.pow 10 exponent.toNat

/-- The numerator of `significand * 2 ^ exponent` over `denominator exponent`. -/
def numerator (significand : Nat) (exponent : Int) : Nat := significand * twoTo exponent

def denominator (exponent : Int) : Nat := twoTo (-exponent)

def isFinite : Binary64 → Bool
  | finite .. => true
  | _ => false

/-- Whether a number is finite and has no fraction. -/
def isWhole : Binary64 → Bool
  | finite _ m e => numerator m e % denominator e == 0
  | _ => false

def absAtMost (bound : Nat) : Binary64 → Bool
  | finite _ m e => numerator m e ≤ bound * denominator e
  | _ => false

def absBelow (bound : Nat) : Binary64 → Bool
  | finite _ m e => numerator m e < bound * denominator e
  | _ => false

def minInteger : Int := -twoTo 63

def maxInteger : Int := twoTo 63 - 1

/-- The number without its fraction, kept within 64 bits; `nan` counts as zero. -/
def toInteger : Binary64 → Int
  | nan => 0
  | infinite true => minInteger
  | infinite false => maxInteger
  | finite negative m e =>
    let whole : Int := numerator m e / denominator e
    max minInteger (min maxInteger (if negative then -whole else whole))

/-- The quotient rounded to the nearest natural number, a half to the even neighbour. -/
def roundQuotient (num den : Nat) : Nat :=
  let quotient := num / den
  let rest := num % den
  if 2 * rest > den || (2 * rest == den && quotient % 2 == 1) then quotient + 1 else quotient

/-- The number nearest to `num / den * 2 ^ -exponent` at the given exponent. -/
def significandAt (num den : Nat) (exponent : Int) : Nat :=
  roundQuotient (num * twoTo (-exponent)) (den * twoTo exponent)

/-- The exponent at which the significand of a quotient fills the precision, or the least one. -/
def exponentFor (num den : Nat) : Int :=
  let guess : Int := (num.log2 : Int) - den.log2 - precision
  let fits := num * twoTo (-guess) < den * twoTo guess * twoTo precision
  max minExponent (if fits then guess else guess + 1)

/-- A finite number, or an infinity if the exponent is too great. -/
def bounded (negative : Bool) (significand : Nat) (exponent : Int) : Binary64 :=
  if maxExponent < exponent then infinite negative else finite negative significand exponent

/-- The binary64 number nearest to `num / den`, ties to the even significand. A significand that
rounds up to one bit more than there are is halved. -/
def round (negative : Bool) (num den : Nat) : Binary64 :=
  let exponent := exponentFor num den
  let significand := significandAt num den exponent
  if significand = twoTo precision then bounded negative (twoTo (precision - 1)) (exponent + 1)
  else bounded negative significand exponent

end Binary64

end RobotBlocks
