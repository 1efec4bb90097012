import RobotBlocks.Block.Shape
import RobotBlocks.ClassType
import RobotBlocks.Context
import RobotBlocks.Fault
import RobotBlocks.Text.Basic
import RobotBlocks.Xml.Element

/-!
# Mutations

The shape of some blocks depends on the single block: how many branches an `if` has, how many items a
list, which parameters a call. The saved program keeps this in a mutation element. `Mutation.decode`
reads the element for a kind, and `Mutation.extend` adds the sockets and slots it describes to the
static shape.
-/

set_option autoImplicit false

namespace RobotBlocks

open RobotBlocks.Text (readCount trim)

structure CallParameter where
  classType : String
  /-- The expression that is passed without a socket, if there is one. -/
  supplied : Option String
  resolved : ClassType.Resolved
  deriving DecidableEq, Repr

structure CallSignature where
  /-- The text under which the script bridge finds the method. -/
  lookup : String
  /-- The class type of the result, or `void`. -/
  returnType : String
  comment : String
  /-- The function of the script bridge that calls the method. -/
  accessMethod : String
  /-- What the script bridge turns the result into. -/
  conversion : String
  className : String
  /-- The name of the class in source. -/
  simpleName : String
  parameters : List CallParameter
  deriving DecidableEq, Repr

namespace CallSignature

/-- The package of the team's own classes. -/
def teamPackage : String := "org.firstinspires.ftc.teamcode"

/-- More parameters than this cannot be held. -/
def maxParameters : Nat := Nat.pow 2 56

/-- The access method and the conversion of a call that states none, from the type of its result. -/
def inferredAccess (returnType : String) : String × String :=
  if ClassType.booleanTypes.contains returnType then ("callJava_boolean", "")
  else if ClassType.textTypes.contains returnType then ("callJava_String", "")
  else if ClassType.wrappedNumberTypes.contains returnType then ("callJava_String", "Number")
  else ("callJava", "")

def required (attributes : Dict String) (name : String) : Except MutationFault String :=
  match attributes.get? name with
  | some value => .ok value
  | none => .error (.missingAttribute name)

def decodeParameter (attributes : Dict String) (index : Nat) : Except MutationFault CallParameter := do
  let classType ← required attributes ("argType" ++ toString index)
  let supplied := (attributes.get? ("argAuto" ++ toString index)).filter (fun auto => !auto.isEmpty)
  return { classType, supplied, resolved := ClassType.resolve classType .input }

/-- The given number of parameters from a position on. -/
def decodeParameters (attributes : Dict String) :
    (index count : Nat) → Except MutationFault (List CallParameter)
  | _, 0 => .ok []
  | index, count + 1 => do
    let parameter ← decodeParameter attributes index
    let parameters ← decodeParameters attributes (index + 1) count
    return parameter :: parameters

def decodeCount (attributes : Dict String) : Except MutationFault Nat := do
  let raw ← required attributes "parameterCount"
  match readCount (trim raw) with
  | .error cause => .error (.badParameterCount raw cause)
  | .ok count => if maxParameters < count then .error (.tooManyParameters count) else .ok count

/-- The signature that the attributes of a mutation describe. The class defaults to the one that the
block's fields name, in the team's package. -/
def decode (attributes fields : Dict String) : Except MutationFault CallSignature := do
  let lookup ← required attributes "methodLookupString"
  let returnType ← required attributes "returnType"
  let count ← decodeCount attributes
  let parameters ← decodeParameters attributes 0 count
  let fieldClass := (fields.get? "CLASS_NAME").getD ""
  let optional (name default : String) := (attributes.get? name).getD default
  let stated := optional "accessMethod" ""
  let (accessMethod, conversion) :=
    if stated.isEmpty then inferredAccess returnType
    else (stated, optional "convertReturnValue" "")
  return {
    lookup, returnType, accessMethod, conversion, parameters
    comment := optional "comment" ""
    className := optional "fullClassName" (teamPackage ++ "." ++ fieldClass)
    simpleName := optional "simpleName" fieldClass }

/-- What follows from the type of the result; a method without a result has nothing. -/
def result? (signature : CallSignature) : Option ClassType.Resolved :=
  if signature.returnType = "void" then none
  else some (ClassType.resolve signature.returnType .output)

/-- Whether the class is one of those outside the team's package, which need an import. -/
def needsImport (signature : CallSignature) : Bool :=
  match Context.package? signature.className with
  | some package => package ≠ teamPackage
  | none => false

end CallSignature

inductive Mutation where
  | call (signature : CallSignature)
  | branches (elseIf : Nat) (hasElse : Bool)
  | items (count : Nat)
  | procedure (name : String) (arguments : List String)
  deriving DecidableEq, Repr

namespace Mutation

/-- A count among the attributes, zero if it is missing. -/
def countAttribute (attributes : Dict String) (name : String) : Except MutationFault Nat :=
  match attributes.get? name with
  | none => .ok 0
  | some raw =>
    match readCount (trim raw) with
    | .ok count => .ok count
    | .error cause => .error (.badCount name raw cause)

def argument? (element : Xml.Element) : Option String :=
  if element.name = "arg" then element.attributes.get? "name" else none

def decode (kind : BlockKind) (element : Xml.Element) (fields : Dict String) :
    Except MutationFault Mutation :=
  match kind with
  | .callStatic _ | .callDevice _ => (CallSignature.decode element.attributes fields).map call
  | .controlsIf => do
    let elseIf ← countAttribute element.attributes "elseif"
    let elses ← countAttribute element.attributes "else"
    return branches elseIf (0 < elses)
  | .textJoin | .listsCreateWith => (countAttribute element.attributes "items").map items
  | .procedureDef _ | .procedureCall _ =>
    let name := ((element.attributes.get? "name").or (fields.get? "NAME")).getD ""
    .ok (procedure name (element.children.filterMap argument?))
  | kind => .error (.fixedShape kind)

/-- The sockets of the parameters that are not supplied, from a position on. -/
def parameterSockets : (index : Nat) → List CallParameter → List Socket
  | _, [] => []
  | index, parameter :: rest =>
    let sockets := parameterSockets (index + 1) rest
    if parameter.supplied.isSome then sockets
    else
      { name := "ARG" ++ toString index
        check := parameter.resolved.check
        declared := some parameter.resolved.label } :: sockets

/-- Sockets with consecutive numbers. -/
def numberedSockets (stem : String) (first count : Nat) (check : Check) : List Socket :=
  (List.range' first count).map (fun index => { name := stem ++ toString index, check })

def callOutput : Output → Option ClassType.Resolved → Output
  | .value _ _, some resolved => .value resolved.check (some resolved.label)
  | output, _ => output

/-- The static shape with what a mutation adds. A procedure's definition binds its arguments as
variables, so only its calls have sockets for them. -/
def extend (shape : Shape) : Mutation → Shape
  | call signature =>
    { shape with
      sockets := shape.sockets ++ parameterSockets 0 signature.parameters
      output := callOutput shape.output signature.result? }
  | branches elseIf hasElse =>
    { shape with
      sockets := shape.sockets ++ numberedSockets "IF" 1 elseIf .boolean
      slots := shape.slots ++ (List.range' 1 elseIf).map (fun index => "DO" ++ toString index) ++
        (if hasElse then ["ELSE"] else []) }
  | items count => { shape with sockets := shape.sockets ++ numberedSockets "ADD" 0 count .any }
  | procedure _ arguments =>
    if shape.slots.isEmpty then
      { shape with
        sockets := shape.sockets ++ numberedSockets "ARG" 0 arguments.length .any }
    else shape

end Mutation

end RobotBlocks
