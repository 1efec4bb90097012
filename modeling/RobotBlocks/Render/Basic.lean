import RobotBlocks.Event
import RobotBlocks.StaticType.Inference
import RobotBlocks.Text.Basic

/-!
# Runs of the renderer

A run has a fixed setting: the workspace, the robot's devices, the target and the options for the
class. What changes on the way is the draft: the imports, declarations and identifiers collected so
far, the static types and the events. A step of a run may fail; its draft stays even then.
-/

set_option autoImplicit false

namespace RobotBlocks

structure Setting where
  workspace : Workspace
  hardware : Hardware := {}
  target : Target
  options : ClassOptions := {}

/-- What a run has put together so far. -/
structure Draft where
  context : Context := {}
  types : TypeTable := {}
  events : List Event := []

abbrev Render := ExceptT Fault (StateM Draft)

namespace Render

/-- The name of the main procedure, which keeps it as its identifier. -/
def mainName : String := "runOpMode"

def record (event : Event) : Render Unit :=
  modify fun draft => { draft with events := event :: draft.events }

/-- Does something to the context that cannot fail. -/
def withContext {α : Type} (operation : Context → α × Context) : Render α :=
  modifyGet fun draft =>
    let (result, context) := operation draft.context
    (result, { draft with context })

def identifierFor (space : Namespace) (name : String) : Render String :=
  withContext fun context => context.identifierFor space name

def variableIdentifier (name : String) : Render String := identifierFor .variableNames name

def procedureIdentifier (name : String) : Render String :=
  if name = mainName then pure name else identifierFor .procedureNames name

def distinctName (base : String) : Render String :=
  withContext fun context => context.distinctName base

def recordImport : Option String → Render Unit
  | some className => record (.importRegistered className)
  | none => pure ()

def importClassType (classType : String) : Render Unit := do
  recordImport (← withContext fun context => context.importClassType classType)

def importKnown (simple : String) : Render Unit := do
  match (← get).context.importKnown simple with
  | some (added, context) =>
    modify fun draft => { draft with context }
    recordImport added
  | none => throw (.noKnownClass simple)

/-- Imports the class of a static type if it is a known one. -/
def importIfKnown (type : String) : Render Unit :=
  let outer := String.ofList (type.toList.takeWhile (fun c => c ≠ '.' && c ≠ '['))
  if (knownClass? outer).isSome then importKnown outer else pure ()

def declare (key : DeclarationKey) (text : String) : Render Unit := do
  let _ ← withContext fun context => context.registerDeclaration key text

/-- Hands over what the run has collected so far. -/
def flush : Render Collected := withContext Context.flush

/-- Declares the field of a device together with its first assignment. The result is its
identifier. -/
def declareDevice (simple className device : String) : Render String := do
  let identifier ← identifierFor (.deviceNames simple) device
  importClassType className
  declare (.field identifier) ("private " ++ simple ++ " " ++ identifier ++ ";")
  declare (.assignment identifier)
    (identifier ++ " = hardwareMap.get(" ++ simple ++ ".class, " ++ Text.quote '"' device ++ ");")
  return identifier

def declareResolved (device : ResolvedDevice) : Render String := do
  let simple := device.kind.className
  match knownClass? simple with
  | some className => declareDevice simple className device.name
  | none => throw (.noKnownClass simple)

def deviceOf (hardware : Hardware) (block : Block) (kind : DeviceKind) : Render ResolvedDevice := do
  let identifier ← block.requiredField "IDENTIFIER"
  let device := hardware.resolve identifier kind
  if !device.configured then record (.deviceMissing block.id device.name kind.className)
  return device

def inferTypes (w : Workspace) : Render Unit := do
  let (result, types) := (Inference.inferAll w).run.run (← get).types
  modify fun draft => { draft with types }
  liftM result
  record (.typesInferred types.variableTypes.size)

end Render

namespace Setting

/-- The package of the program, which matters for classes only. -/
def ownPackage (setting : Setting) : Option String :=
  match setting.target with
  | .java => some setting.options.package
  | .javaScript => none

/-- The context with the identifiers that come first: in a class those of the robot's devices, then
those of the variables. -/
def firstContext (setting : Setting) : Context :=
  let devices :=
    match setting.target with
    | .java => setting.hardware.devices
    | .javaScript => []
  let context := devices.foldl
    (fun context device => (context.identifierFor (.deviceNames device.kind.className) device.name).2)
    { ownPackage := setting.ownPackage : Context }
  setting.workspace.variableNames.foldl
    (fun context name => (context.identifierFor .variableNames name).2) context

def firstDraft (setting : Setting) : Draft := { context := setting.firstContext }

end Setting

end RobotBlocks
