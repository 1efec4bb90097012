import RobotBlocks.Block.Property
import RobotBlocks.Numeral
import RobotBlocks.StaticType.Table
import RobotBlocks.Workspace.Forest

/-!
# Static types of blocks

The type of the value of a block follows from its kind, from the blocks in its sockets and from a
table of what is known about variables and procedures. Blocks in sockets have blocks in sockets
themselves; the number of blocks bounds how deep that goes.
-/

set_option autoImplicit false

namespace RobotBlocks

/-- The names of the parameters of a procedure: those of its definition, of which the first by
identity counts. -/
def Workspace.parameters? (w : Workspace) (procedure : String) : Option (List String) :=
  (w.byId.find? (fun block =>
    block.kind.isDefinition && (block.procedureName.toOption = some procedure))).map
      Block.procedureArguments

namespace StaticType

/-- A type, if it is known; or else what is wrong with the blocks. -/
abbrev Answer := Except Fault (Option String)

/-- The type that an output of a check has if nothing else is stated. -/
def ofCheck? : Check → Option String
  | .one "Number" => some "double"
  | .one "Boolean" => some "boolean"
  | .one "String" => some "String"
  | _ => none

/-- The type of the value in a socket, given the types of blocks. Nothing is known of a socket that is
empty or holds a disabled block. -/
def inSocket (w : Workspace) (typeOf : Block → Answer) (block : Block) (socket : String) : Answer :=
  match block.values.get? socket with
  | none => .ok none
  | some id => do
    let child ← w.block id
    if child.disabled then return none else typeOf child

def numericInSocket (w : Workspace) (typeOf : Block → Answer) (block : Block) (socket : String) :
    Except Fault (Option NumericType) := do
  return (← inSocket w typeOf block socket).bind NumericType.ofLabel?

/-- The type that a block states itself: that of its output, or of the method it calls, or else what
its check says. -/
def stated (block : Block) : Answer := do
  match ← block.outputType with
  | some declared => return some declared
  | none =>
    match block.signature? with
    | some signature => return signature.result?.map ClassType.Resolved.label
    | none => return block.shape.outputCheck?.bind ofCheck?

/-- The type of the value of a block, given the types of the blocks in its sockets. -/
def step (w : Workspace) (table : TypeTable) (typeOf : Block → Answer) (block : Block) : Answer :=
  match block.kind with
  | .mathNumber => do
    let value ← block.literal
    return some (if Numeral.fitsInt value then "int" else "double")
  | .mathArithmetic =>
    if block.field? "OP" = some "POWER" || block.field? "OP" = some "DIVIDE" then
      .ok (some "double")
    else do
      let left ← numericInSocket w typeOf block "A"
      let right ← numericInSocket w typeOf block "B"
      return some (((widest? left right).map NumericType.label).getD "double")
  | .mathSingle =>
    if block.field? "OP" = some "NEG" || block.field? "OP" = some "ABS" then do
      let operand ← inSocket w typeOf block "NUM"
      return some (operand.getD "double")
    else .ok (some "double")
  | .variablesGet => do
    let name ← block.requiredField "VAR"
    return table.variableTypes.get? name
  | .procedureCall true => do
    let name ← block.procedureName
    return table.resultTypes.get? name
  | .logicTernary => do
    let yes ← inSocket w typeOf block "THEN"
    let no ← inSocket w typeOf block "ELSE"
    match yes, no with
    | some s, some t => return some (merge s t)
    | s, t => return s.or t
  | _ => stated block

/-- The type of the value of a block, if blocks stand inside one another at most `depth` deep. -/
def within (w : Workspace) (table : TypeTable) : (depth : Nat) → Block → Answer
  | 0, block => .error (.nestedTooDeep block.id)
  | depth + 1, block => step w table (within w table depth) block

def ofBlock (w : Workspace) (table : TypeTable) (block : Block) : Answer :=
  within w table w.size block

def ofChild (w : Workspace) (table : TypeTable) (block : Block) (socket : String) : Answer :=
  inSocket w (ofBlock w table) block socket

/-- The position of a parameter, from the name of its socket. -/
def parameterIndex? (socket : String) : Option Nat :=
  match socket.toList with
  | 'A' :: 'R' :: 'G' :: digits => (Text.readCountChars digits).toOption
  | _ => none

def ofSocket (w : Workspace) (table : TypeTable) (block : Block) (socket : String) : Answer :=
  match block.kind with
  | .variablesSet =>
    if socket = "VALUE" then do
      let name ← block.requiredField "VAR"
      return some (table.variableType name)
    else block.inputType socket
  | .procedureCall _ => do
    let name ← block.procedureName
    let parameter := (parameterIndex? socket).bind fun index =>
      (w.parameters? name).bind fun parameters => parameters[index]?
    return parameter.map table.variableType
  | _ => block.inputType socket

end StaticType

end RobotBlocks
