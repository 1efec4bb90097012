import RobotBlocks.Device

/-!
# Block kinds

Every block of a program is of one of the kinds below. A saved program names the kind by a type name;
`BlockKind.typeNames` lists both, and a kind whose sockets depend on the single block takes a
mutation.
-/

set_option autoImplicit false

namespace RobotBlocks

/-- Whether a getter states what it gives. -/
inductive Typing where
  | untyped
  | boolean
  | number
  deriving DecidableEq, Repr

inductive MiscBlock where
  | null
  | isNull
  | isNotNull
  | atan2
  | formatNumber
  | roundDecimal
  | addItemToList
  deriving DecidableEq, Repr

inductive TelemetryBlock where
  | addNumericData (typed : Bool)
  | addTextData (all : Bool)
  | update
  | speak
  | speakWithLanguage
  | setDisplayFormat
  | typedEnumDisplayFormat
  deriving DecidableEq, Repr

inductive OpModeCall where
  | waitForStart
  | idle
  | sleep (typed : Bool)
  | opModeInInit
  | opModeIsActive
  | isStarted
  | isStopRequested
  | getRuntime (typed : Bool)
  | resetRuntime
  | requestOpModeStop
  | terminateOpModeNow
  deriving DecidableEq, Repr

def OpModeCall.method : OpModeCall → String
  | waitForStart => "waitForStart"
  | idle => "idle"
  | sleep _ => "sleep"
  | opModeInInit => "opModeInInit"
  | opModeIsActive => "opModeIsActive"
  | isStarted => "isStarted"
  | isStopRequested => "isStopRequested"
  | getRuntime _ => "getRuntime"
  | resetRuntime => "resetRuntime"
  | requestOpModeStop => "requestOpModeStop"
  | terminateOpModeNow => "terminateOpModeNow"

inductive BlockKind where
  | mathNumber
  | mathArithmetic
  | mathSingle
  | logicBoolean
  | logicCompare
  | logicOperation
  | logicNegate
  | logicNull
  | logicTernary
  | text
  | textJoin
  | listsCreateWith
  | listsLength
  | listsIsEmpty
  | variablesGet
  | variablesSet
  | controlsIf
  | controlsWhileUntil
  | controlsRepeat
  | controlsFlow
  | procedureDef (returns : Bool)
  | procedureCall (returns : Bool)
  | comment
  | misc (block : MiscBlock)
  | callStatic (returns : Bool)
  | callDevice (returns : Bool)
  | telemetry (block : TelemetryBlock)
  | opMode (call : OpModeCall)
  | colorGet (typed : Bool)
  | gamepadGet (typing : Typing)
  | deviceSet (kind : DeviceKind)
  | deviceGet (kind : DeviceKind)
  deriving DecidableEq, Repr

namespace BlockKind

/-- The type names of saved programs with their kinds. -/
def typeNames : List (String × BlockKind) :=
  [("math_number", mathNumber),
   ("math_arithmetic", mathArithmetic),
   ("math_single", mathSingle),
   ("logic_boolean", logicBoolean),
   ("logic_compare", logicCompare),
   ("logic_operation", logicOperation),
   ("logic_negate", logicNegate),
   ("logic_null", logicNull),
   ("logic_ternary", logicTernary),
   ("text", text),
   ("text_join", textJoin),
   ("lists_create_with", listsCreateWith),
   ("lists_length", listsLength),
   ("lists_isEmpty", listsIsEmpty),
   ("variables_get", variablesGet),
   ("variables_set", variablesSet),
   ("controls_if", controlsIf),
   ("controls_whileUntil", controlsWhileUntil),
   ("controls_repeat_ext", controlsRepeat),
   ("controls_flow_statements", controlsFlow),
   ("procedures_defnoreturn", procedureDef false),
   ("procedures_defreturn", procedureDef true),
   ("procedures_callnoreturn", procedureCall false),
   ("procedures_callreturn", procedureCall true),
   ("comment", comment),
   ("misc_null", misc .null),
   ("misc_isNull", misc .isNull),
   ("misc_isNotNull", misc .isNotNull),
   ("misc_atan2", misc .atan2),
   ("misc_formatNumber", misc .formatNumber),
   ("misc_roundDecimal", misc .roundDecimal),
   ("misc_addItemToList", misc .addItemToList),
   ("misc_callJava_return", callStatic true),
   ("misc_callJava_noReturn", callStatic false),
   ("misc_callHardware_return", callDevice true),
   ("misc_callHardware_noReturn", callDevice false),
   ("telemetry_addNumericData", telemetry (.addNumericData false)),
   ("telemetry_addNumericData_Number", telemetry (.addNumericData true)),
   ("telemetry_addTextData", telemetry (.addTextData false)),
   ("telemetry_addTextData_All", telemetry (.addTextData true)),
   ("telemetry_update", telemetry .update),
   ("telemetry_speak", telemetry .speak),
   ("telemetry_speak_withLanguage", telemetry .speakWithLanguage),
   ("telemetry_setDisplayFormat", telemetry .setDisplayFormat),
   ("telemetry_typedEnum_displayFormat", telemetry .typedEnumDisplayFormat),
   ("linearOpMode_waitForStart", opMode .waitForStart),
   ("linearOpMode_idle", opMode .idle),
   ("linearOpMode_sleep", opMode (.sleep false)),
   ("linearOpMode_sleep_Number", opMode (.sleep true)),
   ("linearOpMode_opModeInInit", opMode .opModeInInit),
   ("linearOpMode_opModeIsActive", opMode .opModeIsActive),
   ("linearOpMode_isStarted", opMode .isStarted),
   ("linearOpMode_isStopRequested", opMode .isStopRequested),
   ("linearOpMode_getRuntime", opMode (.getRuntime false)),
   ("linearOpMode_getRuntime_Number", opMode (.getRuntime true)),
   ("linearOpMode_resetRuntime", opMode .resetRuntime),
   ("linearOpMode_requestOpModeStop", opMode .requestOpModeStop),
   ("linearOpMode_terminateOpModeNow", opMode .terminateOpModeNow),
   ("color_getProperty", colorGet false),
   ("color_getProperty_Number", colorGet true),
   ("gamepad_getProperty", gamepadGet .untyped),
   ("gamepad_getProperty_Boolean", gamepadGet .boolean),
   ("gamepad_getProperty_Number", gamepadGet .number),
   ("dcMotor_setProperty_Number", deviceSet .dcMotor),
   ("dcMotor_getProperty_Number", deviceGet .dcMotor),
   ("servo_setProperty_Number", deviceSet .servo),
   ("servo_getProperty_Number", deviceGet .servo),
   ("touchSensor_getProperty_Boolean", deviceGet .touchSensor)]

def ofTypeName? (typeName : String) : Option BlockKind :=
  (typeNames.find? (fun entry => entry.1 = typeName)).map Prod.snd

def isCall : BlockKind → Bool
  | callStatic _ => true
  | callDevice _ => true
  | _ => false

def isDefinition : BlockKind → Bool
  | procedureDef _ => true
  | _ => false

/-- Whether the shape of a kind follows from a mutation. -/
def takesMutation : BlockKind → Bool
  | callStatic _ | callDevice _ | controlsIf | textJoin | listsCreateWith
  | procedureDef _ | procedureCall _ => true
  | _ => false

def flag (name : String) (value : Bool) : String :=
  " \x7b " ++ name ++ ": " ++ (if value then "true" else "false") ++ " \x7d"

def describeMisc : MiscBlock → String
  | .null => "Null"
  | .isNull => "IsNull"
  | .isNotNull => "IsNotNull"
  | .atan2 => "Atan2"
  | .formatNumber => "FormatNumber"
  | .roundDecimal => "RoundDecimal"
  | .addItemToList => "AddItemToList"

def describeTelemetry : TelemetryBlock → String
  | .addNumericData typed => "AddNumericData" ++ flag "typed" typed
  | .addTextData all => "AddTextData" ++ flag "all" all
  | .update => "Update"
  | .speak => "Speak"
  | .speakWithLanguage => "SpeakWithLanguage"
  | .setDisplayFormat => "SetDisplayFormat"
  | .typedEnumDisplayFormat => "TypedEnumDisplayFormat"

def describeOpMode : OpModeCall → String
  | .waitForStart => "WaitForStart"
  | .idle => "Idle"
  | .sleep typed => "Sleep" ++ flag "typed" typed
  | .opModeInInit => "OpModeInInit"
  | .opModeIsActive => "OpModeIsActive"
  | .isStarted => "IsStarted"
  | .isStopRequested => "IsStopRequested"
  | .getRuntime typed => "GetRuntime" ++ flag "typed" typed
  | .resetRuntime => "ResetRuntime"
  | .requestOpModeStop => "RequestOpModeStop"
  | .terminateOpModeNow => "TerminateOpModeNow"

def describeTyping : Typing → String
  | .untyped => "Untyped"
  | .boolean => "Boolean"
  | .number => "Number"

def describe : BlockKind → String
  | mathNumber => "MathNumber"
  | mathArithmetic => "MathArithmetic"
  | mathSingle => "MathSingle"
  | logicBoolean => "LogicBoolean"
  | logicCompare => "LogicCompare"
  | logicOperation => "LogicOperation"
  | logicNegate => "LogicNegate"
  | logicNull => "LogicNull"
  | logicTernary => "LogicTernary"
  | text => "Text"
  | textJoin => "TextJoin"
  | listsCreateWith => "ListsCreateWith"
  | listsLength => "ListsLength"
  | listsIsEmpty => "ListsIsEmpty"
  | variablesGet => "VariablesGet"
  | variablesSet => "VariablesSet"
  | controlsIf => "ControlsIf"
  | controlsWhileUntil => "ControlsWhileUntil"
  | controlsRepeat => "ControlsRepeatExt"
  | controlsFlow => "ControlsFlowStatements"
  | procedureDef returns => "ProcedureDef" ++ flag "returns" returns
  | procedureCall returns => "ProcedureCall" ++ flag "returns" returns
  | comment => "Comment"
  | misc block => "Misc(" ++ describeMisc block ++ ")"
  | callStatic returns => "CallJava" ++ flag "returns" returns
  | callDevice returns => "CallHardware" ++ flag "returns" returns
  | telemetry block => "Telemetry(" ++ describeTelemetry block ++ ")"
  | opMode call => "LinearOpMode(" ++ describeOpMode call ++ ")"
  | colorGet typed => "ColorGetProperty" ++ flag "typed" typed
  | gamepadGet typing => "GamepadGetProperty(" ++ describeTyping typing ++ ")"
  | deviceSet kind => "DeviceSetProperty(" ++ kind.className ++ ")"
  | deviceGet kind => "DeviceGetProperty(" ++ kind.className ++ ")"

end BlockKind

end RobotBlocks
