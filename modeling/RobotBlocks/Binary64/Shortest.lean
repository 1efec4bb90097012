import RobotBlocks.Binary64

/-!
# The shortest decimal that reads back

Between two neighbouring binary64 numbers lies the point where reading turns from one to the other;
the decimals that read back as a number form an interval around it. `shortest` looks for a decimal in
that interval with one digit, then with two, and so on, and takes the first it finds, the nearer one
if there are two. Seventeen digits always suffice.

`text` writes these digits: with a point between one ten-thousandth and ten to the sixteenth, with an
exponent elsewhere.
-/

set_option autoImplicit false

namespace RobotBlocks.Binary64

/-- A positive decimal `digits * 10 ^ exponent`. -/
structure Decimal where
  digits : Nat
  /-- The power of ten of the last digit. -/
  exponent : Int
  deriving DecidableEq, Repr

/-- The decimals that read back as a positive number, over a common denominator. -/
structure Readback where
  value : Nat
  low : Nat
  high : Nat
  /-- The denominator of the other three. -/
  denominator : Nat
  /-- Whether the ends read back too. -/
  closed : Bool

/-- What reads back as `significand * 2 ^ exponent`: up to the middle of the gap on either side. Below
a power of two the gap is half as wide. -/
def readback (significand : Nat) (exponent : Int) : Readback :=
  let scale := twoTo (exponent - 2)
  { value := 4 * significand * scale
    low := (4 * significand - if significand = twoTo (precision - 1) then 1 else 2) * scale
    high := (4 * significand + 2) * scale
    denominator := twoTo (2 - exponent)
    closed := significand % 2 == 0 }

/-- Whether `value / denominator` is less than a power of ten. -/
def Readback.below (r : Readback) (power : Int) : Bool :=
  r.value * tenTo (-power) < r.denominator * tenTo power

/-- The least power of ten above the number. -/
def Readback.magnitude (r : Readback) : Int :=
  let guess : Int := (((r.value.log2 : Int) - r.denominator.log2) * 30103).fdiv 100000
  if r.below guess then guess else if r.below (guess + 1) then guess + 1 else guess + 2

/-- The decimal nearest to the number among those on the grid of a power of ten that read back. -/
def Readback.onGrid (r : Readback) (power : Int) : Option Decimal :=
  let factor := tenTo (-power)
  let unit := r.denominator * tenTo power
  let value := r.value * factor
  let low := r.low * factor
  let high := r.high * factor
  let down := value / unit
  let downHits := if r.closed then low ≤ down * unit else low < down * unit
  let upHits := if r.closed then (down + 1) * unit ≤ high else (down + 1) * unit < high
  let upNearer := unit ≤ 2 * (value % unit)
  if upHits && (!downHits || upNearer) then some ⟨down + 1, power⟩
  else if downHits then some ⟨down, power⟩
  else none

/-- The first decimal found among those with at least `length` digits and `steps` more. -/
def Readback.search (r : Readback) (magnitude : Int) : (steps length : Nat) → Decimal
  | 0, length => ⟨r.value * tenTo (length - magnitude) / r.denominator, magnitude - length⟩
  | steps + 1, length =>
    match r.onGrid (magnitude - length) with
    | some decimal => decimal
    | none => r.search magnitude steps (length + 1)

/-- The decimal with the fewest digits that reads back as a positive number. -/
def shortest (significand : Nat) (exponent : Int) : Decimal :=
  let r := readback significand exponent
  r.search r.magnitude 17 1

/-- The decimal digits without the zeros at their end, and how many these were. -/
def dropZeros : List Char → List Char × Nat
  | digits =>
    let kept := (digits.reverse.dropWhile (· = '0')).reverse
    (kept, digits.length - kept.length)

/-- Decimal digits with a point after the first `point` of them, filled with zeros where there are
none. -/
def positional (digits : List Char) (point : Int) : String :=
  let length : Int := digits.length
  if point ≤ 0 then
    "0." ++ String.ofList (List.replicate (-point).toNat '0' ++ digits)
  else if length ≤ point then
    String.ofList (digits ++ List.replicate (point - length).toNat '0') ++ ".0"
  else
    String.ofList (digits.take point.toNat) ++ "." ++ String.ofList (digits.drop point.toNat)

/-- Decimal digits with the point after the first and an exponent. -/
def scientific (digits : List Char) (exponent : Int) : String :=
  let mantissa :=
    match digits with
    | first :: second :: rest => String.ofList [first] ++ "." ++ String.ofList (second :: rest)
    | digits => String.ofList digits
  mantissa ++ "e" ++ toString exponent

def textOfPositive (significand : Nat) (exponent : Int) : String :=
  let decimal := shortest significand exponent
  let (digits, zeros) := dropZeros (Nat.toDigits 10 decimal.digits)
  let point : Int := digits.length + zeros + decimal.exponent
  if -3 ≤ point ∧ point ≤ 16 then positional digits point else scientific digits (point - 1)

/-- The shortest text that reads back as the number; a whole number keeps one zero after its point. -/
def text : Binary64 → String
  | nan => "NaN"
  | infinite negative => if negative then "-inf" else "inf"
  | finite negative significand exponent =>
    (if negative then "-" else "") ++
      if significand = 0 then "0.0" else textOfPositive significand exponent

end RobotBlocks.Binary64
