import RobotBlocks.Binary64
import RobotBlocks.Text.Count

/-!
# Reading binary64 numbers

A number is written as an optional sign and then either one of the words `inf`, `infinity` and `nan`
in any case, or decimal digits with an optional point among them (at least one digit on one side) and
an optional exponent. The number read is the one nearest to what is written; past the greatest number
it is an infinity.
-/

set_option autoImplicit false

namespace RobotBlocks.Binary64

open RobotBlocks.Text (digit?)

def spanDigits : List Char → List Nat × List Char
  | [] => ([], [])
  | c :: rest =>
    match digit? c with
    | some d => let (ds, tail) := spanDigits rest; (d :: ds, tail)
    | none => ([], c :: rest)

def ofDigits (digits : List Nat) : Nat := digits.foldl (fun n d => n * 10 + d) 0

def spanSign : List Char → Bool × List Char
  | '-' :: rest => (true, rest)
  | '+' :: rest => (false, rest)
  | cs => (false, cs)

/-- Past this power of ten every number but zero overflows. -/
def decimalBound : Int := 400

/-- The number nearest to `digits * 10 ^ exponent`, where `length` bounds the number of digits. -/
def ofDecimal (negative : Bool) (digits length : Nat) (exponent : Int) : Binary64 :=
  if digits == 0 then finite negative 0 minExponent
  else if decimalBound < exponent then infinite negative
  else if exponent + length < -decimalBound then finite negative 0 minExponent
  else round negative (digits * tenTo exponent) (tenTo (-exponent))

/-- The exponent that ends a number: nothing, or the letter and an integer up to the end. -/
def readExponent : List Char → Option Int
  | [] => some 0
  | c :: rest =>
    if c = 'e' ∨ c = 'E' then
      let (negative, rest) := spanSign rest
      match spanDigits rest with
      | ([], _) => none
      | (ds, []) => some (if negative then -(ofDigits ds : Int) else ofDigits ds)
      | (_, _ :: _) => none
    else none

/-- A number in decimal digits, without its sign. -/
def readUnsigned (negative : Bool) (cs : List Char) : Option Binary64 :=
  let (whole, rest) := spanDigits cs
  let (fraction, rest) :=
    match rest with
    | '.' :: rest => spanDigits rest
    | rest => ([], rest)
  let digits := whole ++ fraction
  if digits.isEmpty then none
  else
    (readExponent rest).map fun exponent =>
      ofDecimal negative (ofDigits digits) digits.length (exponent - fraction.length)

def readChars (cs : List Char) : Option Binary64 :=
  let (negative, rest) := spanSign cs
  let word := String.ofList (rest.map Char.toLower)
  if word = "nan" then some nan
  else if word = "inf" ∨ word = "infinity" then some (infinite negative)
  else readUnsigned negative rest

def read (s : String) : Option Binary64 := readChars s.toList

end RobotBlocks.Binary64
