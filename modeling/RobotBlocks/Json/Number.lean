import RobotBlocks.Binary64.Reading

/-!
# Numbers in JSON documents

A number is written as a whole part without leading zeros, then a fraction and an exponent if there are
any. It is taken as a whole number of at most 64 bits, its significand, times a power of ten. Digits
that the significand cannot take are left out: those of the whole part count in the power, those of
the fraction count for nothing.

A number is in range if its significand and its power of ten, each rounded to a binary64 number, have a
finite product. So near the end of the range it matters how a number is written: zeros behind its last
digit can take it out of range.
-/

set_option autoImplicit false

namespace RobotBlocks.Json

/-- A number as it is written, without its sign. -/
structure Number where
  /-- The digits before the point. -/
  whole : List Nat
  /-- The digits behind the point. -/
  fraction : List Nat := []
  /-- The exponent that is written, zero if there is none. -/
  exponent : Int := 0
  deriving DecidableEq, Repr

namespace Number

open RobotBlocks.Binary64 (spanDigits readExponent)

/-- The digits before the point, a zero only on its own, and what follows them. -/
def spanWhole (cs : List Char) : Option (List Nat × List Char) :=
  match spanDigits cs with
  | ([], _) => none
  | (0 :: _ :: _, _) => none
  | (whole, rest) => some (whole, rest)

/-- The digits behind the point, if there is one, and what follows them. -/
def spanFraction : List Char → Option (List Nat × List Char)
  | '.' :: rest =>
    match spanDigits rest with
    | ([], _) => none
    | (fraction, rest) => some (fraction, rest)
  | rest => some ([], rest)

/-- The number that characters form; a minus sign may stand before it. -/
def ofChars? (cs : List Char) : Option Number := do
  let (whole, rest) ← spanWhole (match cs with | '-' :: rest => rest | cs => cs)
  let (fraction, rest) ← spanFraction rest
  let exponent ← readExponent rest
  return { whole, fraction, exponent }

/-- The most that a significand can be. -/
def maxSignificand : Nat := 18446744073709551615

/-- Appends digits to a significand up to the first that it cannot take. Gives the digits that are
left out, too. -/
def append (significand : Nat) : (digits : List Nat) → Nat × List Nat
  | [] => (significand, [])
  | d :: digits =>
    if significand * 10 + d ≤ maxSignificand then append (significand * 10 + d) digits
    else (significand, d :: digits)

def wholeSignificand (number : Number) : Nat := (append 0 number.whole).1

def significand (number : Number) : Nat :=
  (append number.wholeSignificand number.fraction).1

/-- The power of ten that goes with the significand. -/
def power (number : Number) : Int :=
  let missing := (append 0 number.whole).2.length
  let missingFraction := (append number.wholeSignificand number.fraction).2.length
  number.exponent + missing - (number.fraction.length - missingFraction : Nat)

/-- The greatest power of ten that is a finite binary64 number. -/
def maxPower : Int := 308

/-- Whether two natural numbers, each rounded to a binary64 number, have a finite product there. -/
def finiteProduct (a b : Nat) : Bool :=
  match Binary64.round false a 1, Binary64.round false b 1 with
  | .finite _ m e, .finite _ n f =>
    (Binary64.round false (Binary64.numerator m e * Binary64.numerator n f)
      (Binary64.denominator e * Binary64.denominator f)).isFinite
  | _, _ => false

/-- Whether a number is in the range of binary64. -/
def inRange (number : Number) : Bool :=
  number.significand == 0 || number.power < 0 ||
    (number.power ≤ maxPower &&
      finiteProduct number.significand (Binary64.tenTo number.power))

end Number

end RobotBlocks.Json
