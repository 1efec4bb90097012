import RobotBlocks.Block.Kind
import RobotBlocks.Check

/-!
# Block shapes

The shape of a block tells where other blocks connect: its value sockets in order, its statement
slots in order, and whether the block itself is a statement or gives a value. Every kind has a static
shape; a mutation may extend it for a single block.
-/

set_option autoImplicit false

namespace RobotBlocks

structure Socket where
  name : String
  check : Check
  /-- The type that the compiled target expects, if the block states one. -/
  declared : Option String := none
  deriving DecidableEq, Repr

inductive Output where
  | statement
  /-- A value with a check and, if the block states one, a type of the compiled target. -/
  | value (check : Check) (declared : Option String)
  deriving DecidableEq, Repr

/-- Where other blocks connect to a block. -/
structure Shape where
  sockets : List Socket := []
  slots : List String := []
  output : Output := .statement
  deriving DecidableEq, Repr

namespace Shape

def socket? (shape : Shape) (name : String) : Option Socket :=
  shape.sockets.find? (fun socket => socket.name = name)

def outputCheck? (shape : Shape) : Option Check :=
  match shape.output with
  | .statement => none
  | .value check _ => some check

def isStatement (shape : Shape) : Bool := shape.output = .statement

/-- The shape of a value without sockets. -/
def giving (check : Check) (declared : Option String := none) : Shape :=
  { output := .value check declared }

/-- The shape of a value that takes others in its sockets. -/
def taking (sockets : List Socket) (check : Check) (declared : Option String := none) : Shape :=
  { sockets, output := .value check declared }

/-- The shape of a statement with sockets and slots. -/
def doing (sockets : List Socket) (slots : List String := []) : Shape := { sockets, slots }

def displayFormatType : String := "Telemetry.DisplayFormat"

/-- A socket for a number that the compiled target expects as the given type. -/
def numeric (name declared : String) : Socket := { name, check := .number, declared := some declared }

def ofMisc : MiscBlock → Shape
  | .null => giving .any
  | .isNull | .isNotNull => taking [⟨"VALUE", .any, none⟩] .boolean (some "boolean")
  | .atan2 => taking [numeric "Y" "double", numeric "X" "double"] .number (some "double")
  | .formatNumber =>
    taking [numeric "NUMBER" "double", numeric "PRECISION" "int"] .text (some "String")
  | .roundDecimal =>
    taking [numeric "NUMBER" "double", numeric "PRECISION" "int"] .number (some "double")
  | .addItemToList => doing [⟨"ITEM", .any, none⟩, ⟨"LIST", .list, none⟩]

def ofTelemetry : TelemetryBlock → Shape
  | .addNumericData false => doing [⟨"KEY", .any, none⟩, ⟨"NUMBER", .any, none⟩]
  | .addNumericData true => doing [⟨"KEY", .text, none⟩, numeric "NUMBER" "double"]
  | .addTextData all => doing [⟨"KEY", if all then .text else .any, none⟩, ⟨"TEXT", .any, none⟩]
  | .update => doing []
  | .speak => doing [⟨"TEXT", .any, none⟩]
  | .speakWithLanguage =>
    doing [⟨"TEXT", .any, none⟩, ⟨"LANGUAGE_CODE", .text, none⟩, ⟨"COUNTRY_CODE", .text, none⟩]
  | .setDisplayFormat => doing [⟨"DISPLAY_FORMAT", .one displayFormatType, none⟩]
  | .typedEnumDisplayFormat => giving (.one displayFormatType) (some displayFormatType)

def ofOpMode : OpModeCall → Shape
  | .sleep false => doing [⟨"MILLISECONDS", .any, none⟩]
  | .sleep true => doing [numeric "MILLISECONDS" "long"]
  | .opModeInInit | .opModeIsActive | .isStarted | .isStopRequested =>
    giving .boolean (some "boolean")
  | .getRuntime false => giving .any (some "double")
  | .getRuntime true => giving .number (some "double")
  | .waitForStart | .idle | .resetRuntime | .requestOpModeStop | .terminateOpModeNow => doing []

def ofKind : BlockKind → Shape
  | .mathNumber => giving .number
  | .mathArithmetic => taking [⟨"A", .number, none⟩, ⟨"B", .number, none⟩] .number
  | .mathSingle => taking [⟨"NUM", .number, none⟩] .number
  | .logicBoolean => giving .boolean (some "boolean")
  | .logicCompare => taking [⟨"A", .any, none⟩, ⟨"B", .any, none⟩] .boolean (some "boolean")
  | .logicOperation =>
    taking [⟨"A", .boolean, none⟩, ⟨"B", .boolean, none⟩] .boolean (some "boolean")
  | .logicNegate => taking [⟨"BOOL", .boolean, none⟩] .boolean (some "boolean")
  | .logicNull => giving .any
  | .logicTernary =>
    taking [⟨"IF", .boolean, none⟩, ⟨"THEN", .any, none⟩, ⟨"ELSE", .any, none⟩] .any
  | .text => giving .text (some "String")
  | .textJoin => giving .text (some "String")
  | .listsCreateWith => giving .list (some "List")
  | .listsLength => taking [⟨"VALUE", .list, none⟩] .number (some "int")
  | .listsIsEmpty => taking [⟨"VALUE", .list, none⟩] .boolean (some "boolean")
  | .variablesGet => giving .any
  | .variablesSet => doing [⟨"VALUE", .any, none⟩]
  | .controlsIf => doing [⟨"IF0", .boolean, none⟩] ["DO0"]
  | .controlsWhileUntil => doing [⟨"BOOL", .boolean, none⟩] ["DO"]
  | .controlsRepeat => doing [⟨"TIMES", .number, none⟩] ["DO"]
  | .controlsFlow => doing []
  | .procedureDef returns => doing (if returns then [⟨"RETURN", .any, none⟩] else []) ["STACK"]
  | .procedureCall returns | .callStatic returns | .callDevice returns =>
    if returns then giving .any else doing []
  | .comment => doing []
  | .misc block => ofMisc block
  | .telemetry block => ofTelemetry block
  | .opMode call => ofOpMode call
  | .colorGet false => taking [⟨"COLOR", .any, none⟩] .any
  | .colorGet true => taking [numeric "COLOR" "int"] .number
  | .gamepadGet .untyped => giving .any
  | .gamepadGet .boolean => giving .boolean (some "boolean")
  | .gamepadGet .number => giving .number (some "float")
  | .deviceSet _ => doing [⟨"VALUE", .number, none⟩]
  | .deviceGet .touchSensor => giving .boolean (some "boolean")
  | .deviceGet _ => giving .number

end Shape

end RobotBlocks
