/-!
# Primitive numeric types

The compiled target has six primitive numeric types. They widen from left to right: a value of a type
converts to every later type without a cast.
-/

set_option autoImplicit false

namespace RobotBlocks

/-- A primitive numeric type, the narrowest first. -/
inductive NumericType where
  | byte
  | short
  | int
  | long
  | float
  | double
  deriving DecidableEq, Repr

namespace NumericType

/-- The position of a type in the order of widening. -/
def rank : NumericType → Nat
  | byte => 0
  | short => 1
  | int => 2
  | long => 3
  | float => 4
  | double => 5

def label : NumericType → String
  | byte => "byte"
  | short => "short"
  | int => "int"
  | long => "long"
  | float => "float"
  | double => "double"

def ofLabel? : String → Option NumericType
  | "byte" => some byte
  | "short" => some short
  | "int" => some int
  | "long" => some long
  | "float" => some float
  | "double" => some double
  | _ => none

def isIntegral (t : NumericType) : Bool := t.rank ≤ long.rank

def widest (s t : NumericType) : NumericType := if s.rank ≤ t.rank then t else s

@[simp] theorem ofLabel?_label (t : NumericType) : ofLabel? t.label = some t := by
  cases t <;> rfl

end NumericType

end RobotBlocks
