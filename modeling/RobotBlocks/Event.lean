import RobotBlocks.Check
import RobotBlocks.Target

/-!
# Events

While a program is read and rendered, things happen that its author may want to know, and others that
only explain the result. They are recorded as events, in order, also on the way to a fault.
-/

set_option autoImplicit false

namespace RobotBlocks

inductive Level where
  | warning
  | detail
  deriving DecidableEq, Repr

inductive Event where
  | elementIgnored (block element : String)
  /-- A block whose kind has a fixed shape has a mutation. -/
  | mutationIgnored (block : String)
  /-- A value hangs in a socket that its block does not have. -/
  | undeclaredSocket (block socket : String)
  | workspaceElementIgnored (element : String)
  | loaded (blocks : Nat)
  | generating (target : Target) (blocks : Nat)
  | typesInferred (count : Nat)
  | importRegistered (className : String)
  | disabledSkipped (block : String)
  | disabledRootSkipped (block : String)
  | checkFailed (block socket : String) (expected found : Check)
  | deviceMissing (block device kind : String)
  | secondMain (block : String)
  /-- A block that belongs to no function is left out. -/
  | outsideFunctions (block typeName : String)
  | noMain
  deriving DecidableEq, Repr

namespace Event

def level : Event → Level
  | undeclaredSocket .. | checkFailed .. | deviceMissing .. | secondMain .. | outsideFunctions ..
  | noMain => .warning
  | _ => .detail

def message : Event → String
  | elementIgnored .. => "ignoring block element"
  | mutationIgnored .. => "ignoring mutation on fixed-shape block"
  | undeclaredSocket .. => "value connected to a socket the block does not declare"
  | workspaceElementIgnored .. => "ignoring workspace element"
  | loaded .. => "loaded block graph"
  | generating .. => "generating source"
  | typesInferred .. => "inferred variable types"
  | importRegistered .. => "registered import"
  | disabledSkipped .. => "skipping disabled block"
  | disabledRootSkipped .. => "skipping disabled top block"
  | checkFailed .. => "value type does not match socket"
  | deviceMissing .. => "device is not in the hardware configuration"
  | secondMain .. => "ignoring second runOpMode definition"
  | outsideFunctions .. => "block outside any function is not part of the compiled OpMode"
  | noMain => "program has no runOpMode function"

def fields : Event → List (String × String)
  | elementIgnored block element => [("block", block), ("element", element)]
  | mutationIgnored block => [("block", block)]
  | undeclaredSocket block socket => [("block", block), ("socket", socket)]
  | workspaceElementIgnored element => [("element", element)]
  | loaded blocks => [("blocks", toString blocks)]
  | generating target blocks => [("mode", target.language), ("blocks", toString blocks)]
  | typesInferred count => [("variables", toString count)]
  | importRegistered className => [("import", className)]
  | disabledSkipped block => [("block", block)]
  | disabledRootSkipped block => [("block", block)]
  | checkFailed block socket expected found =>
    [("block", block), ("socket", socket), ("expected", expected.describe),
     ("found", found.describe)]
  | deviceMissing block device kind => [("block", block), ("device", device), ("kind", kind)]
  | secondMain block => [("block", block)]
  | outsideFunctions block typeName => [("block", block), ("kind", typeName)]
  | noMain => []

end Event

end RobotBlocks
