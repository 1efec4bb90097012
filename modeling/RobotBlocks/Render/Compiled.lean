import RobotBlocks.Program.Registration
import RobotBlocks.Render.Statement

/-!
# Classes

A class extends `LinearOpMode`. Its fields are the devices that the program uses and the variables,
its methods the procedures; the main procedure becomes `runOpMode`, which first looks the devices up.
Blocks outside of procedures are left out. What the class needs from other packages is imported.
-/

set_option autoImplicit false

namespace RobotBlocks

namespace Compiled

/-- Imports the classes of the result and of the parameters of a method. -/
def importSignature (signature : CallSignature) : Render Unit := do
  Render.importClassType signature.returnType
  signature.parameters.forM (fun parameter => Render.importClassType parameter.classType)

def argument (r : Renderer) (block : Block) : CallParameter × Nat → Render Expr
  | (parameter, index) =>
    match parameter.supplied with
    | some code => pure (.verbatim code)
    | none => r.operandOr block ("ARG" ++ toString index) (.name "null")

def methodCall (r : Renderer) (block : Block) (receiver : String) (signature : CallSignature) :
    Render Expr := do
  let method ← block.requiredField "METHOD_NAME"
  let arguments ← signature.parameters.zipIdx.mapM (argument r block)
  return .method (.verbatim receiver) method arguments

def staticCall (r : Renderer) (block : Block) : Render Expr := do
  let signature ← block.signature
  importSignature signature
  if signature.needsImport then Render.importClassType signature.className
  methodCall r block signature.simpleName signature

/-- The call of a method of a device, which gets a field. -/
def deviceCall (r : Renderer) (block : Block) : Render Expr := do
  let signature ← block.signature
  importSignature signature
  let device ← block.requiredField "DEVICE_NAME"
  let identifier ← Render.declareDevice signature.simpleName signature.className device
  methodCall r block identifier signature

def formattedNumber (r : Renderer) (block : Block) : Render Expr := do
  Render.importKnown "JavaUtil"
  r.callWith block "JavaUtil.formatNumber" ["NUMBER", "PRECISION"]

def comparedWithNull (r : Renderer) (block : Block) (operator : Operator) : Render Expr := do
  return .binary operator (← r.operand block "VALUE") (.name "null")

def miscValue (r : Renderer) (block : Block) : MiscBlock → Render Expr
  | .null => pure (.name "null")
  | .isNull => comparedWithNull r block .equal
  | .isNotNull => comparedWithNull r block .notEqual
  | .atan2 => r.angle block
  | .formatNumber => formattedNumber r block
  | .roundDecimal => do return .call "Double.parseDouble" [← formattedNumber r block]
  | .addItemToList => r.sharedValue block

def displayFormatValue (block : Block) : Render Expr := do
  let format ← block.displayFormat
  Render.importKnown "Telemetry"
  return .path ("Telemetry.DisplayFormat." ++ format)

def colorValue (r : Renderer) (block : Block) : Render Expr := do
  let property ← ColorProperty.of block
  let color ← r.operand block "COLOR"
  if property.isChannel then
    Render.importKnown "Color"
    return .call ("Color." ++ property.method) [color]
  else
    Render.importKnown "JavaUtil"
    return .call ("JavaUtil.colorTo" ++ property.name) [color]

def gamepadValue (block : Block) (typing : Typing) : Except Fault Expr := do
  let property ← GamepadProperty.of block typing
  let gamepad ← block.gamepad
  return .path (gamepad ++ "." ++ property.member)

def deviceField (r : Renderer) (block : Block) (kind : DeviceKind) : Render Expr := do
  let device ← Render.deviceOf r.setting.hardware block kind
  return .name (← Render.declareResolved device)

def deviceValue (r : Renderer) (block : Block) (kind : DeviceKind) : Render Expr := do
  let property ← DeviceProperty.of block kind false
  let device ← deviceField r block kind
  return .method device property.getter []

def value (r : Renderer) (block : Block) : Render Expr :=
  match block.kind with
  | .misc misc => miscValue r block misc
  | .callStatic true => staticCall r block
  | .callDevice true => deviceCall r block
  | .telemetry .typedEnumDisplayFormat => displayFormatValue block
  | .opMode call => pure (.call call.method [])
  | .colorGet _ => colorValue r block
  | .gamepadGet typing => liftM (gamepadValue block typing)
  | .deviceGet kind => deviceValue r block kind
  | .listsLength => do return .method (← r.operand block "VALUE") "size" []
  | .listsIsEmpty => do return .method (← r.operand block "VALUE") "isEmpty" []
  | _ => r.sharedValue block

def telemetry (r : Renderer) (block : Block) : TelemetryBlock → Render String
  | .addNumericData _ => r.callStatement block "telemetry.addData" ["KEY", "NUMBER"]
  | .addTextData _ => r.callStatement block "telemetry.addData" ["KEY", "TEXT"]
  | .update => r.callStatement block "telemetry.update" []
  | .speak => do
    let text ← r.operand block "TEXT"
    return Renderer.expressionStatement
      (.call "telemetry.speak" [text, .name "null", .name "null"])
  | .speakWithLanguage =>
    r.callStatement block "telemetry.speak" ["TEXT", "LANGUAGE_CODE", "COUNTRY_CODE"]
  | .setDisplayFormat => r.callStatement block "telemetry.setDisplayFormat" ["DISPLAY_FORMAT"]
  | .typedEnumDisplayFormat => r.sharedStatement block

def addItem (r : Renderer) (block : Block) : Render String := do
  let list ← r.operand block "LIST"
  let item ← r.operand block "ITEM"
  return Renderer.expressionStatement (.method list "add" [item])

def deviceSet (r : Renderer) (block : Block) (kind : DeviceKind) : Render String := do
  let property ← DeviceProperty.of block kind true
  let device ← deviceField r block kind
  let value ← r.operand block "VALUE"
  return Renderer.expressionStatement
    (.method device (property.setter.getD property.getter) [value])

def statement (r : Renderer) (block : Block) : Render String :=
  match block.kind with
  | .comment => pure (Text.lineComment ((block.field? "COMMENT").getD ""))
  | .misc .addItemToList => addItem r block
  | .callStatic false => do return Renderer.expressionStatement (← staticCall r block)
  | .callDevice false => do return Renderer.expressionStatement (← deviceCall r block)
  | .telemetry kind => telemetry r block kind
  | .opMode (.sleep _) => r.callStatement block "sleep" ["MILLISECONDS"]
  | .opMode call => r.callStatement block call.method []
  | .deviceSet kind => deviceSet r block kind
  | _ => r.sharedStatement block

def procedureDoc : String := "Describe this function..."

def mainDoc : String :=
  "This function is executed when this OpMode is selected from the Driver Station."

def parameter (name : String) : Render String := do
  let type := (← get).types.variableType name
  Render.importIfKnown type
  return type ++ " " ++ (← Render.variableIdentifier name)

/-- The type of the result of a procedure and the statement that gives it. -/
def result (r : Renderer) (block : Block) (name : String) : Render (String × String) :=
  match block.kind with
  | .procedureDef true => do
    let last ← r.returnStatement block
    let type := (← get).types.resultType name
    Render.importIfKnown type
    return (type, last)
  | _ => pure ("void", "")

def method (r : Renderer) (block : Block) : Render String := do
  let name ← block.procedureName
  let identifier ← Render.procedureIdentifier name
  let parameters ← block.procedureArguments.mapM parameter
  let body ← r.slot block "STACK"
  let (type, last) ← result r block name
  let doc := (block.comment.filter (fun comment => !Text.allBlank comment)).getD procedureDoc
  return Text.docComment doc ++ Renderer.braced
    ("private " ++ type ++ " " ++ identifier ++ "(" ++ ", ".intercalate parameters ++ ")")
    (body ++ last)

structure Procedures where
  methods : List String := []
  main : Option Block := none

/-- Adds the procedure that a root defines. Everything else is left out. -/
def addRoot (r : Renderer) (procedures : Procedures) (root : Block) : Render Procedures :=
  if root.disabled then do
    Render.record (.disabledRootSkipped root.id)
    return procedures
  else if root.kind.isDefinition then do
    if (← root.procedureName) ≠ Render.mainName then
      return { procedures with methods := procedures.methods ++ [← method r root] }
    else if procedures.main.isSome then
      Render.record (.secondMain root.id)
      return procedures
    else return { procedures with main := some root }
  else do
    Render.record (.outsideFunctions root.id root.typeName)
    return procedures

/-- The body of the main procedure and its comment. -/
def mainParts (r : Renderer) : Option Block → Render (String × Option String)
  | some block => do return (← r.slot block "STACK", block.comment)
  | none => do
    Render.record .noMain
    return ("", none)

def flavorAnnotation : Flavor → String
  | .teleOp => "TeleOp"
  | .autonomous => "Autonomous"

def annotationEntries (className : String) (registration : Registration) : List String :=
  let entry (name content : String) := name ++ " = " ++ Text.quote '"' content
  [entry "name" className] ++
    (if registration.group.isEmpty then [] else [entry "group" registration.group]) ++
    (if registration.flavor = .autonomous && !registration.autoTransition.isEmpty then
      [entry "preselectTeleOp" registration.autoTransition]
    else [])

/-- The annotations by which the robot lists a program. -/
def annotations (className : String) (registration : Registration) : Render String := do
  let flavor := flavorAnnotation registration.flavor
  Render.importKnown flavor
  let listed := "@" ++ flavor ++ "(" ++
    ", ".intercalate (annotationEntries className registration) ++ ")\n"
  if registration.enabled then return listed
  else
    Render.importKnown "Disabled"
    return listed ++ "@Disabled\n"

def variableField (name : String) : Render String := do
  let identifier ← Render.variableIdentifier name
  let type := (← get).types.variableType name
  Render.importIfKnown type
  return "private " ++ type ++ " " ++ identifier ++ ";"

structure Parts where
  imports : List String := []
  annotations : String
  fields : List String
  methods : List String
  /-- The statements that look the devices up. -/
  assignments : List String := []
  /-- The statements of the main procedure. -/
  mainBody : String
  mainDoc : String

def mainMethod (parts : Parts) : String :=
  let assignments := String.join (parts.assignments.map (fun line => "  " ++ line ++ "\n"))
  let gap := if assignments.isEmpty || parts.mainBody.isEmpty then "" else "\n"
  Text.docComment parts.mainDoc ++ "@Override\n" ++
    Renderer.braced "public void runOpMode()" (assignments ++ gap ++ parts.mainBody)

/-- The members of a class: its fields, its methods and the main method. -/
def members (parts : Parts) : List String :=
  (if parts.fields.isEmpty then []
    else [String.join (parts.fields.map (fun line => line ++ "\n"))]) ++
    parts.methods ++ [mainMethod parts]

def assemble (options : ClassOptions) (parts : Parts) : String :=
  "package " ++ options.package ++ ";\n\n" ++
    String.join (parts.imports.map (fun name => "import " ++ name ++ ";\n")) ++
    (if parts.imports.isEmpty then "" else "\n") ++
    parts.annotations ++
    "public class " ++ options.className ++ " extends LinearOpMode \x7b\n\n" ++
    "\n".intercalate ((members parts).map Text.indent) ++ "\x7d\n"

/-- Renders the parts of a class. Its imports and its devices are only collected on the way. -/
def renderParts (r : Renderer) (registration : Registration) : Render Parts := do
  let procedures ← r.setting.workspace.roots.foldlM (addRoot r) {}
  let (mainBody, comment) ← mainParts r procedures.main
  Render.importKnown "LinearOpMode"
  let annotations ← annotations r.setting.options.className registration
  let fields ← r.setting.workspace.variableNames.mapM variableField
  return {
    annotations, fields, mainBody
    methods := procedures.methods
    mainDoc := comment.getD mainDoc }

/-- Adds what was collected. The fields of devices come before those of variables. -/
def Parts.withCollected (parts : Parts) (collected : Collected) : Parts :=
  { parts with
    imports := collected.imports
    fields := collected.fields ++ parts.fields
    assignments := collected.assignments }

def collect (r : Renderer) (registration : Registration) : Render Parts := do
  let parts ← renderParts r registration
  return parts.withCollected (← Render.flush)

def program (r : Renderer) (registration : Registration) : Render String := do
  let options := r.setting.options
  if !Identifier.isClassName options.className then throw (.badClassName options.className)
  return assemble options (← collect r registration)

end Compiled

end RobotBlocks
