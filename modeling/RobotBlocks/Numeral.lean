import RobotBlocks.Binary64.Shortest
import RobotBlocks.Target

/-!
# The text of numbers

Whole numbers below `10 ^ 15` are written without a point, all others with the fewest digits that read
back. A class tells whole numbers by their size as well: within the range of `int` they are plain, and
beyond it they are written with a point, because no plain literal holds them.
-/

set_option autoImplicit false

namespace RobotBlocks

namespace Numeral

def maxInt : Nat := Nat.pow 2 31 - 1

/-- The bound of the numbers of type `long`. -/
def longBound : Nat := Nat.pow 2 63

def maxFloat : Nat := (Nat.pow 2 24 - 1) * Nat.pow 2 104

/-- Whole numbers below this one are written without a point. -/
def plainBound : Nat := Nat.pow 10 15

/-- Whether a number is whole and within the range of `int`. -/
def fitsInt (value : Binary64) : Bool := value.isWhole && value.absAtMost maxInt

def scriptText (value : Binary64) : String :=
  if value.isWhole && value.absBelow plainBound then toString value.toInteger else value.text

def hasPoint (text : String) : Bool := text.toList.any (fun c => c = '.' || c = 'e')

def classText (value : Binary64) : String :=
  let text := scriptText value
  if !fitsInt value && value.isWhole && !hasPoint text then text ++ ".0" else text

def literal : Target → Binary64 → String
  | .javaScript, .nan => "NaN"
  | .javaScript, .infinite negative => if negative then "-Infinity" else "Infinity"
  | .javaScript, value => scriptText value
  | .java, .nan => "Double.NaN"
  | .java, .infinite negative =>
    if negative then "Double.NEGATIVE_INFINITY" else "Double.POSITIVE_INFINITY"
  | .java, value => classText value

end Numeral

end RobotBlocks
