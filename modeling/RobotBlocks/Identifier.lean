import RobotBlocks.ClassType.Known

/-!
# Identifiers

Generated code needs identifiers that both targets accept. `Identifier.ofName` keeps of a name the
letters, digits, underscores and dollar signs of ASCII, and puts an underscore before a leading digit.
A reserved word, a name that generated code relies on, and the simple name of a known class are no
identifiers for anything else.
-/

set_option autoImplicit false

namespace RobotBlocks.Identifier

def isIdentifierChar (c : Char) : Bool := c.isAlphanum || c = '_' || c = '$'

def ofNameChars (name : List Char) : List Char :=
  let kept := name.filter isIdentifierChar
  if kept.head?.any Char.isDigit then '_' :: kept else kept

/-- The identifier that is left of a name; it is empty if no character may stand in one. -/
def ofName (name : String) : String := String.ofList (ofNameChars name.toList)

def classWords : List String :=
  ["abstract", "assert", "boolean", "break", "byte", "case", "catch", "char", "class", "const",
   "continue", "default", "do", "double", "else", "enum", "extends", "final", "finally",
   "float", "for", "goto", "if", "implements", "import", "instanceof", "int", "interface",
   "long", "native", "new", "package", "private", "protected", "public", "return", "short",
   "static", "strictfp", "super", "switch", "synchronized", "this", "throw", "throws",
   "transient", "try", "void", "volatile", "while", "true", "false", "null"]

def scriptWords : List String :=
  ["arguments", "await", "delete", "eval", "export", "function", "in", "let", "typeof",
   "undefined", "var", "with", "yield"]

/-- The names that generated code relies on. -/
def reliedNames : List String :=
  ["hardwareMap", "telemetry", "gamepad1", "gamepad2", "linearOpMode", "misc", "color",
   "runOpMode", "callJava", "callHardware", "listLength", "listIsEmpty",
   "telemetryAddTextData", "telemetrySpeak", "Math", "String", "Double", "Object"]

def reservedWords : List String := classWords ++ scriptWords ++ reliedNames

/-- Whether a text is reserved: a word of a target, a name that generated code relies on, or a known
class. -/
def isReserved (identifier : String) : Bool :=
  reservedWords.contains identifier || (knownClass? identifier).isSome

/-- Whether a class may have the name: it is an identifier and not reserved. -/
def isClassName (name : String) : Bool :=
  !name.isEmpty && ofName name = name && !isReserved name

end RobotBlocks.Identifier
