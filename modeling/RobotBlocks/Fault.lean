import RobotBlocks.Block.Kind
import RobotBlocks.Text.Count

/-!
# Faults of block programs

Everything that can be wrong with a program is a cause here: a document that cannot be read, blocks
that do not link up, a field or a mutation that is missing or makes no sense, a block at a place where
it cannot stand. The wording of all causes is in `Fault.message`; a cause inside another follows it
after a colon.
-/

set_option autoImplicit false

namespace RobotBlocks

open RobotBlocks.Text (CountFault)

inductive MutationFault where
  | missingAttribute (name : String)
  /-- The number of parameters is no count. -/
  | badParameterCount (raw : String) (cause : CountFault)
  /-- There are more parameters than memory can hold. -/
  | tooManyParameters (count : Nat)
  | badCount (name raw : String) (cause : CountFault)
  /-- Blocks of a kind have no mutation. -/
  | fixedShape (kind : BlockKind)
  deriving DecidableEq, Repr

def MutationFault.message : MutationFault → String
  | .missingAttribute name => "mutation is missing attribute '" ++ name ++ "'"
  | .badParameterCount raw cause =>
    "invalid parameterCount '" ++ raw ++ "': " ++ cause.message
  | .tooManyParameters count => "too many parameters: " ++ toString count
  | .badCount name raw cause =>
    "invalid mutation attribute " ++ name ++ "='" ++ raw ++ "': " ++ cause.message
  | .fixedShape kind => kind.describe ++ " blocks do not take a mutation"

inductive Fault where
  | malformedBlocks
  | malformedRegistration
  /-- The root element has another name than it should. -/
  | wrongRoot (name : String)
  | unknownFlavor (flavor : String)
  | noType (block : String)
  | unknownType (typeName block : String)
  | badMutation (block typeName : String) (cause : MutationFault)
  | noMutation (block typeName : String)
  | duplicateBlock (block : String)
  | unknownBlock (block : String)
  | linkedTwice (block first second : String)
  | nextTaken (block : String)
  | reachableTwice (block : String)
  | unreachable (blocks : List String)
  | missingField (block typeName field : String)
  /-- A field has a value that is none of its choices. -/
  | unexpectedChoice (block typeName field value : String)
  | chainLoops (block : String)
  | valueAsStatement (block typeName : String)
  | statementAsValue (child typeName socket block : String)
  | noStatementText (block typeName : String)
  | noValueText (block typeName : String)
  | malformedNumber (block typeName text : String)
  /-- A block that calls a method does not know the method. -/
  | noSignature (block typeName : String)
  | noKnownClass (simple : String)
  /-- The name for the class is none that a class may have. -/
  | badClassName (name : String)
  | nestedTooDeep (block : String)
  deriving DecidableEq, Repr

namespace Fault

def named (block typeName : String) : String := "'" ++ block ++ "' (" ++ typeName ++ ")"

def message : Fault → String
  | malformedBlocks => "Malformed block XML."
  | malformedRegistration => "Malformed OpMode metadata XML."
  | wrongRoot name => "Expected <xml> root element, found <" ++ name ++ ">."
  | unknownFlavor flavor => "Unknown OpMode flavor '" ++ flavor ++ "'."
  | noType block => "Block '" ++ block ++ "' has no type."
  | unknownType typeName block =>
    "Unknown block type '" ++ typeName ++ "' (block '" ++ block ++ "')."
  | badMutation block typeName cause =>
    "Bad mutation on block " ++ named block typeName ++ ".: " ++ cause.message
  | noMutation block typeName => "Block " ++ named block typeName ++ " is missing its <mutation>."
  | duplicateBlock block => "Duplicate block id '" ++ block ++ "'."
  | unknownBlock block => "Reference to unknown block '" ++ block ++ "'."
  | linkedTwice block first second =>
    "Block '" ++ block ++ "' is linked from both '" ++ first ++ "' and '" ++ second ++ "'."
  | nextTaken block => "Block '" ++ block ++ "' already has a next block."
  | reachableTwice block => "Block '" ++ block ++ "' is reachable twice (cycle in block links)."
  | unreachable blocks => "Blocks form a cycle: " ++ ", ".intercalate blocks ++ "."
  | missingField block typeName field =>
    "Block " ++ named block typeName ++ " is missing field '" ++ field ++ "'."
  | unexpectedChoice block typeName field value =>
    "Unexpected " ++ String.ofList (field.toList.map Char.toLower) ++ " '" ++ value ++
      "' on block " ++ named block typeName ++ "."
  | chainLoops block => "Statement chain loops back to block '" ++ block ++ "'."
  | valueAsStatement block typeName =>
    "Value block " ++ named block typeName ++ " is used as a statement."
  | statementAsValue child typeName socket block =>
    "Statement block " ++ named child typeName ++ " is plugged into value socket '" ++ socket ++
      "' of block '" ++ block ++ "'."
  | noStatementText block typeName =>
    "Block " ++ named block typeName ++ " has no statement rendering."
  | noValueText block typeName => "Block " ++ named block typeName ++ " has no value rendering."
  | malformedNumber block typeName text =>
    "Block " ++ named block typeName ++ " has malformed number '" ++ text ++ "'."
  | noSignature block typeName => "Block " ++ named block typeName ++ " has no call mutation."
  | noKnownClass simple => "No known class for type '" ++ simple ++ "'."
  | badClassName name => "Class name '" ++ name ++ "' is not a usable Java identifier."
  | nestedTooDeep block => "Block '" ++ block ++ "' is nested too deeply."

end Fault

end RobotBlocks
