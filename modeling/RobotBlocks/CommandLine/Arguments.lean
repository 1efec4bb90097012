import RobotBlocks.Target

/-!
# Command-line arguments

A command line names an input file, maybe an output file, and options. Options may stand anywhere and
have their value behind an equals sign or in the next argument; after two dashes everything is a
file.

A value is looked at only when the next file or option begins, or at the end. So of two mistakes the
one in the name of an option can win over one in the value before it.
-/

set_option autoImplicit false

namespace RobotBlocks

namespace CommandLine

/-- What is wrong with a command line; or that it asks for help. -/
inductive UsageFault where
  | help
  /-- There is no such option, or there are too many files. -/
  | unknownArgument
  | missingInput
  /-- An option or a file has no value, or one that makes no sense. -/
  | invalidValue
  /-- An option has a value that takes none. -/
  | unneededValue
  | repeated
  deriving DecidableEq, Repr

def UsageFault.message : UsageFault → String
  | help => "usage: INPUT [OUTPUT] [--target js|java] [--hardware FILE] [--class-name NAME] " ++
      "[--package NAME]"
  | unknownArgument => "unexpected argument"
  | missingInput => "the input file is missing"
  | invalidValue => "a value is missing or invalid"
  | unneededValue => "an option takes no value"
  | repeated => "an option cannot be used twice"

inductive Key where
  | target
  | hardware
  | className
  | package
  deriving DecidableEq, Repr

def Key.ofName? : String → Option Key
  | "target" => some target
  | "hardware" => some hardware
  | "class-name" => some className
  | "package" => some package
  | _ => none

structure Arguments where
  input : String
  output : Option String := none
  target : Target := .javaScript
  /-- The file that lists the robot's devices. -/
  hardware : Option String := none
  className : Option String := none
  package : String := ({} : ClassOptions).package
  deriving DecidableEq, Repr

/-- What was read but not looked at yet. -/
inductive Pending where
  | nothing
  | option (key : Key)
  | value (key : Key) (value : String)
  | file (path : String)
  deriving DecidableEq, Repr

structure Reading where
  input : Option String := none
  output : Option String := none
  target : Option Target := none
  hardware : Option String := none
  className : Option String := none
  package : Option String := none
  pending : Pending := .nothing
  files : Nat := 0
  /-- Whether only files follow. -/
  onlyFiles : Bool := false
  deriving DecidableEq, Repr

namespace Reading

def targetOf : String → Except UsageFault Target
  | "js" => .ok .javaScript
  | "java" => .ok .java
  | _ => .error .invalidValue

/-- A path, which may not be empty. -/
def pathOf (path : String) : Except UsageFault String :=
  if path.isEmpty then .error .invalidValue else .ok path

def setOption (reading : Reading) (key : Key) (value : String) : Except UsageFault Reading :=
  match key with
  | .target =>
    if reading.target.isSome then .error .repeated
    else do return { reading with target := some (← targetOf value) }
  | .hardware =>
    if reading.hardware.isSome then .error .repeated
    else do return { reading with hardware := some (← pathOf value) }
  | .className =>
    if reading.className.isSome then .error .repeated
    else .ok { reading with className := some value }
  | .package =>
    if reading.package.isSome then .error .repeated
    else .ok { reading with package := some value }

/-- Takes a file: the first is the input, the second the output. -/
def setFile (reading : Reading) (path : String) : Except UsageFault Reading := do
  let path ← pathOf path
  if reading.input.isNone then return { reading with input := some path }
  else return { reading with output := some path }

/-- Looks at what was read last. -/
def settle (reading : Reading) : Except UsageFault Reading :=
  let settled := { reading with pending := .nothing }
  match reading.pending with
  | .nothing => .ok settled
  | .option _ => .error .invalidValue
  | .value key value => settled.setOption key value
  | .file path => settled.setFile path

def readFile (reading : Reading) (path : String) : Except UsageFault Reading :=
  if 2 ≤ reading.files then .error .unknownArgument
  else do return { ← reading.settle with pending := .file path, files := reading.files + 1 }

/-- The name of a long option and the value behind its equals sign. -/
def splitOption (option : List Char) : String × Option String :=
  let value := option.dropWhile (fun c => c ≠ '=')
  (String.ofList (option.takeWhile (fun c => c ≠ '=')),
    if value.isEmpty then none else some (String.ofList (value.drop 1)))

def readLong (reading : Reading) (option : List Char) : Except UsageFault Reading :=
  match splitOption option with
  | ("help", none) => do
    let _ ← reading.settle
    .error .help
  | ("help", some _) => .error .unneededValue
  | (name, value) =>
    match Key.ofName? name, value with
    | none, _ => .error .unknownArgument
    | some key, none => do return { ← reading.settle with pending := .option key }
    | some key, some value => do (← reading.settle).setOption key value

/-- Reads an argument that is no long option: a value if one is expected, and otherwise a file. -/
def readPlain (reading : Reading) (argument : String) : Except UsageFault Reading :=
  match reading.pending with
  | .option key => .ok { reading with pending := .value key argument }
  | _ => reading.readFile argument

def read (reading : Reading) (argument : String) : Except UsageFault Reading :=
  if reading.onlyFiles then reading.readFile argument
  else
    match argument.toList with
    | ['-', '-'] => .ok { reading with onlyFiles := true }
    | '-' :: '-' :: option => reading.readLong option
    | '-' :: 'h' :: _ => do
      let _ ← reading.settle
      .error .help
    | '-' :: _ :: _ => .error .unknownArgument
    | _ => reading.readPlain argument

def arguments (reading : Reading) : Except UsageFault Arguments :=
  match reading.input with
  | none => .error .missingInput
  | some input => .ok
    { input
      output := reading.output
      target := reading.target.getD .javaScript
      hardware := reading.hardware
      className := reading.className
      package := reading.package.getD ({} : ClassOptions).package }

end Reading

def Arguments.read (arguments : List String) : Except UsageFault Arguments := do
  let reading ← arguments.foldlM Reading.read {}
  let reading ← reading.settle
  reading.arguments

end CommandLine

end RobotBlocks
