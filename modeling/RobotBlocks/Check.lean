/-!
# Socket checks

A check tells which outputs a socket takes, and what kind of value an output is: anything, values of
one label, or values of any of several labels. An output fits a socket if one of the two is
unrestricted or they share a label.
-/

set_option autoImplicit false

namespace RobotBlocks

/-- What a socket takes or an output gives. -/
inductive Check where
  | any
  | one (label : String)
  | anyOf (labels : List String)
  deriving DecidableEq, Repr

namespace Check

def number : Check := one "Number"

def boolean : Check := one "Boolean"

def text : Check := one "String"

def list : Check := one "Array"

def labels : Check → List String
  | any => []
  | one label => [label]
  | anyOf labels => labels

def isNumber (c : Check) : Bool := c = number

/-- Whether a socket with the first check takes an output with the second. -/
def accepts (socket output : Check) : Bool :=
  socket = any || output = any || output.labels.any (socket.labels.contains ·)

def describe : Check → String
  | any => "any"
  | one label => label
  | anyOf labels => "|".intercalate labels

end Check

end RobotBlocks
