import RobotBlocks.Render.Statement

/-!
# Scripts

A script runs beside the robot program and reaches it through bridge objects: `linearOpMode`,
`telemetry`, `misc`, `color`, the gamepads and one object for each device. Procedures become functions,
and statements outside of procedures run when the script is loaded.
-/

set_option autoImplicit false

namespace RobotBlocks

namespace Script

/-- A text in double quotes, as the bridge takes names. -/
def quotedName (content : String) : Expr := .text '"' content

/-- The argument of a call for a parameter. The bridge finds supplied arguments itself. -/
def argument (r : Renderer) (block : Block) : CallParameter × Nat → Render Expr
  | (parameter, index) =>
    if parameter.supplied.isSome then pure (.name "null")
    else r.operandOr block ("ARG" ++ toString index) (.name "null")

/-- The name of the device that a block calls, if it calls one. -/
def calledDevice (block : Block) : Except Fault (List Expr) :=
  match block.kind with
  | .callDevice _ => do return [quotedName (← block.requiredField "DEVICE_NAME")]
  | _ => .ok []

/-- The bridge function that calls methods for a kind of block. -/
def callFunction : BlockKind → String
  | .callDevice _ => "callHardware"
  | _ => "callJava"

/-- The call of a method. The bridge finds it by its lookup text. -/
def methodCall (r : Renderer) (block : Block) : Render Expr := do
  let signature ← block.signature
  let device ← calledDevice block
  let arguments ← signature.parameters.zipIdx.mapM (argument r block)
  return .call (callFunction block.kind)
    ([.name "misc", quotedName signature.returnType, quotedName signature.accessMethod,
      quotedName signature.conversion] ++ device ++ [quotedName signature.lookup] ++ arguments)

def miscValue (r : Renderer) (block : Block) : MiscBlock → Render Expr
  | .null => pure (.call "misc.getNull" [])
  | .isNull => r.callWith block "misc.isNull" ["VALUE"]
  | .isNotNull => r.callWith block "misc.isNotNull" ["VALUE"]
  | .atan2 => r.angle block
  | .formatNumber => r.callWith block "misc.formatNumber" ["NUMBER", "PRECISION"]
  | .roundDecimal => r.callWith block "misc.roundDecimal" ["NUMBER", "PRECISION"]
  | .addItemToList => r.sharedValue block

def colorValue (r : Renderer) (block : Block) : Render Expr := do
  let property ← ColorProperty.of block
  r.callWith block ("color.get" ++ property.name) ["COLOR"]

def gamepadValue (block : Block) (typing : Typing) : Except Fault Expr := do
  let property ← GamepadProperty.of block typing
  let gamepad ← block.gamepad
  return .method (.name gamepad) ("get" ++ property.name) []

/-- The bridge object of the device that a block is about. -/
def deviceObject (r : Renderer) (block : Block) (kind : DeviceKind) : Render Expr := do
  let _ ← Render.deviceOf r.setting.hardware block kind
  return .verbatim (← block.requiredField "IDENTIFIER")

def deviceValue (r : Renderer) (block : Block) (kind : DeviceKind) : Render Expr := do
  let property ← DeviceProperty.of block kind false
  let device ← deviceObject r block kind
  return .method device ("get" ++ property.name) []

def value (r : Renderer) (block : Block) : Render Expr :=
  match block.kind with
  | .misc misc => miscValue r block misc
  | .callStatic true | .callDevice true => methodCall r block
  | .telemetry .typedEnumDisplayFormat => do return quotedName (← block.displayFormat)
  | .opMode call => pure (.method (.name "linearOpMode") call.method [])
  | .colorGet _ => colorValue r block
  | .gamepadGet typing => liftM (gamepadValue block typing)
  | .deviceGet kind => deviceValue r block kind
  | .listsLength => do
    return .call "listLength" [.name "misc", ← r.operand block "VALUE"]
  | .listsIsEmpty => do
    return .call "listIsEmpty" [.name "misc", ← r.operand block "VALUE"]
  | _ => r.sharedValue block

def telemetry (r : Renderer) (block : Block) : TelemetryBlock → Render String
  | .addNumericData _ => r.callStatement block "telemetry.addNumericData" ["KEY", "NUMBER"]
  | .addTextData _ => r.callStatement block "telemetryAddTextData" ["KEY", "TEXT"]
  | .update => r.callStatement block "telemetry.update" []
  | .speak => do
    let text ← r.operand block "TEXT"
    return Renderer.expressionStatement
      (.call "telemetrySpeak" [text, .text '\'' "", .text '\'' ""])
  | .speakWithLanguage =>
    r.callStatement block "telemetrySpeak" ["TEXT", "LANGUAGE_CODE", "COUNTRY_CODE"]
  | .setDisplayFormat => r.callStatement block "telemetry.setDisplayFormat" ["DISPLAY_FORMAT"]
  | .typedEnumDisplayFormat => r.sharedStatement block

def addItem (r : Renderer) (block : Block) : Render String := do
  let list ← r.operand block "LIST"
  let item ← r.operand block "ITEM"
  return Renderer.expressionStatement (.method list "push" [item])

def deviceSet (r : Renderer) (block : Block) (kind : DeviceKind) : Render String := do
  let property ← DeviceProperty.of block kind true
  let device ← deviceObject r block kind
  let value ← r.operand block "VALUE"
  return Renderer.expressionStatement (.method device ("set" ++ property.name) [value])

/-- The text of a statement. Scripts drop comment blocks. -/
def statement (r : Renderer) (block : Block) : Render String :=
  match block.kind with
  | .comment => pure ""
  | .misc .addItemToList => addItem r block
  | .callStatic false | .callDevice false => do
    return Renderer.expressionStatement (← methodCall r block)
  | .telemetry kind => telemetry r block kind
  | .opMode (.sleep _) => r.callStatement block "linearOpMode.sleep" ["MILLISECONDS"]
  | .opMode call => r.callStatement block ("linearOpMode." ++ call.method) []
  | .deviceSet kind => deviceSet r block kind
  | _ => r.sharedStatement block

/-- A procedure as a function, behind its comment if it has one. -/
def function (r : Renderer) (block : Block) : Render String := do
  let name ← block.procedureName
  let identifier ← Render.procedureIdentifier name
  let parameters ← block.procedureArguments.mapM Render.variableIdentifier
  let body ← r.slot block "STACK"
  let last ← if block.kind = .procedureDef true then r.returnStatement block else pure ""
  let comment := (block.comment.filter (fun comment => !Text.allBlank comment)).map Text.docComment
  return comment.getD "" ++ Renderer.braced
    ("function " ++ identifier ++ "(" ++ ", ".intercalate parameters ++ ")") (body ++ last)

/-- The section of a root: a function, a chain of statements, or a value by itself. -/
def section? (r : Renderer) (root : Block) : Render (Option String) :=
  if root.disabled then do
    Render.record (.disabledRootSkipped root.id)
    return none
  else if root.kind.isDefinition then do return some (← function r root)
  else if root.shape.isStatement then do return some (← r.chain root.id)
  else do return some (Renderer.expressionStatement (← r.value root))

def variableLine (name : String) : Render String := do
  return "var " ++ (← Render.variableIdentifier name) ++ ";\n"

/-- The whole script: the variables, then the sections. -/
def program (r : Renderer) : Render String := do
  let sections ← r.setting.workspace.roots.mapM (section? r)
  let sections := sections.filterMap id
  let lines ← r.setting.workspace.variableNames.mapM variableLine
  let gap := if lines.isEmpty || sections.isEmpty then "" else "\n"
  return String.join lines ++ gap ++ "\n".intercalate sections

end Script

end RobotBlocks
