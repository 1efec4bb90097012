import RobotBlocks.CommandLine.Run

/-!
# The command

Reads the command line and runs it on the files of the machine. The exit code is zero if all went
well, one if the run failed and two if the command line makes no sense.
-/

set_option autoImplicit false

namespace RobotBlocks

namespace CommandLine

def readOnDisk (path : String) : IO (Option String) := do
  try return String.fromUTF8? (← IO.FS.readBinFile path)
  catch _ => return none

/-- The file at a path of the machine. Devices and the like are no files. -/
def findOnDisk (path : String) : IO (Option FoundFile) := do
  try
    let fullPath ← IO.FS.realPath path
    match (← fullPath.metadata).type with
    | .file => return some { fullPath := toString fullPath, text := ← readOnDisk path }
    | _ => return none
  catch _ => return none

def writeOnDisk (path text : String) : IO Bool := do
  try
    IO.FS.writeFile path text
    return true
  catch _ => return false

def machine : Host IO where
  find := findOnDisk
  read := readOnDisk
  write := writeOnDisk
  tell line := IO.eprint line
  print text := IO.print text

end CommandLine

end RobotBlocks

open RobotBlocks.CommandLine in
def main (args : List String) : IO UInt32 := do
  match Arguments.read args with
  | .error .help =>
    IO.println UsageFault.help.message
    return 0
  | .error fault =>
    IO.eprintln ("error: " ++ fault.message)
    return 2
  | .ok arguments =>
    match ← (run machine arguments).run with
    | .ok () => return 0
    | .error fault =>
      IO.eprintln ("Error: " ++ fault.message)
      return 1
