import RobotBlocks.CommandLine.Arguments
import RobotBlocks.CommandLine.Path
import RobotBlocks.Device.Configuration
import RobotBlocks.Render.Generate

/-!
# A run from the command line

A run finds the input, loads the robot's configuration if one is named, reads the blocks, renders them
and writes the result. It tells about each stage before it begins.

Files and messages are the business of a `Host`, so that a run means the same wherever it takes
place.
-/

set_option autoImplicit false

namespace RobotBlocks

namespace CommandLine

structure FoundFile where
  fullPath : String
  /-- Its text, unless it is no text. -/
  text : Option String
  deriving DecidableEq, Repr

/-- What a run needs of its surroundings. -/
structure Host (m : Type → Type) where
  find : String → m (Option FoundFile)
  /-- The text that can be read at a path, from a file or whatever else has one. -/
  read : String → m (Option String)
  /-- Writes a text to the file at a path, and tells whether that worked. -/
  write : String → String → m Bool
  tell : String → m Unit
  print : String → m Unit

inductive RunFault where
  | inputNotFound (path : String)
  | hardwareUnreadable (path : String)
  | hardwareInvalid (path : String) (cause : Hardware.Fault)
  | inputUnreadable (path : String)
  | inputInvalid (path : String) (cause : Fault)
  | notRendered (cause : Fault)
  | outputUnwritable (path : String)
  deriving DecidableEq, Repr

def RunFault.message : RunFault → String
  | inputNotFound path => "Input file not found: '" ++ path ++ "'."
  | hardwareUnreadable path => "Failed to read hardware configuration '" ++ path ++ "'."
  | hardwareInvalid path cause =>
    "Invalid hardware configuration '" ++ path ++ "'." ++
      (cause.message?.map (fun message => ": " ++ message)).getD ""
  | inputUnreadable path => "Failed to read '" ++ path ++ "'."
  | inputInvalid path cause => "Invalid blocks file '" ++ path ++ "'.: " ++ cause.message
  | notRendered cause => cause.message
  | outputUnwritable path => "Failed to write '" ++ path ++ "'."

/-- A bar that is filled as far as a run has come, rounded to the nearest cell. -/
def progressBar (step total width : Nat) : String :=
  let filled := min width ((step * width + total / 2) / total)
  "[" ++ String.ofList (List.replicate filled '=' ++ List.replicate (width - filled) '-') ++ "]"

def progressLine (step total : Nat) (label : String) : String :=
  "[Generate] " ++ label ++ "... (" ++ toString step ++ "/" ++ toString total ++ ") " ++
    progressBar step total 14 ++ "\n"

namespace Arguments

def stages (arguments : Arguments) : Nat := if arguments.hardware.isSome then 4 else 3

def classOptions (arguments : Arguments) (input : String) : ClassOptions :=
  { className := arguments.className.getD (Path.className input)
    package := arguments.package }

end Arguments

variable {m : Type → Type} [Monad m]

def announce (host : Host m) (arguments : Arguments) (step : Nat) (label : String) :
    ExceptT RunFault m Unit :=
  liftM (host.tell (progressLine step arguments.stages label))

def findInput (host : Host m) (arguments : Arguments) : ExceptT RunFault m FoundFile := do
  match ← liftM (host.find arguments.input) with
  | some file => return file
  | none => throw (.inputNotFound arguments.input)

def readHardware (path text : String) : Except RunFault Hardware :=
  match Hardware.read text with
  | .ok hardware => .ok hardware
  | .error cause => .error (.hardwareInvalid path cause)

/-- The robot's devices, none if no configuration is named. -/
def loadHardware (host : Host m) (arguments : Arguments) : ExceptT RunFault m Hardware :=
  match arguments.hardware with
  | none => pure {}
  | some path => do
    announce host arguments 2 "Loading hardware configuration"
    match ← liftM (host.read path) with
    | none => throw (.hardwareUnreadable path)
    | some text => liftM (readHardware path text)

def readProgram (file : FoundFile) : Except RunFault Program :=
  match file.text with
  | none => .error (.inputUnreadable file.fullPath)
  | some text =>
    match (Program.read text).1 with
    | .ok program => .ok program
    | .error cause => .error (.inputInvalid file.fullPath cause)

def renderProgram (arguments : Arguments) (hardware : Hardware) (file : FoundFile)
    (program : Program) : Except RunFault String :=
  match (program.render arguments.target hardware (arguments.classOptions file.fullPath)).1 with
  | .ok code => .ok code
  | .error cause => .error (.notRendered cause)

/-- Writes the result to the output, or prints it if none is named. -/
def emit (host : Host m) (arguments : Arguments) (code : String) : ExceptT RunFault m Unit :=
  match arguments.output with
  | none => liftM (host.print code)
  | some path => do
    if ← liftM (host.write path code) then return () else throw (.outputUnwritable path)

def run (host : Host m) (arguments : Arguments) : ExceptT RunFault m Unit := do
  announce host arguments 1 "Resolving input path"
  let file ← findInput host arguments
  let hardware ← loadHardware host arguments
  announce host arguments (arguments.stages - 1) "Parsing blocks"
  let program ← liftM (readProgram file)
  announce host arguments arguments.stages ("Generating " ++ arguments.target.language)
  let code ← liftM (renderProgram arguments hardware file program)
  emit host arguments code

end CommandLine

end RobotBlocks
