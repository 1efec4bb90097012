import RobotBlocks.CommandLine.Run

/-!
# Files in memory

A tree of folders and files, one of which is the working folder, and the host that works on it.
Finding a file follows the parts of its path one by one, from the working folder on or, behind a slash,
from the root on: a part that is empty or a dot stays in a folder, two dots go back, and any other has
to be an entry. Only folders have entries.

A file can be written where there is none or another one, but not in place of a folder. Besides files
there are sinks: they are empty and swallow what is written to them.
-/

set_option autoImplicit false

namespace RobotBlocks

namespace CommandLine

inductive Entry where
  | folder
  /-- A file with its text, unless it is no text. -/
  | file (text : Option String)
  /-- Swallows what is written. -/
  | sink
  deriving DecidableEq, Repr

def Entry.text? : Entry → Option String
  | folder => none
  | file text => text
  | sink => some ""

/-- Folders and files. A place is given by the names that lead there from the root on. -/
structure FileTree where
  home : List String
  /-- How the working folder is shown. -/
  homePath : String
  /-- What stands at which place. -/
  entries : List (List String × Entry) := []
  deriving DecidableEq, Repr

namespace FileTree

def parts (path : String) : List String := (Path.parts path.toList).map String.ofList

/-- What stands at a place; the root is a folder. -/
def entry? (tree : FileTree) (place : List String) : Option Entry :=
  if place.isEmpty then some .folder
  else (tree.entries.find? (fun entry => entry.1 = place)).map Prod.snd

/-- Adds an entry, or puts it in place of another one. -/
def put (tree : FileTree) (place : List String) (entry : Entry) : FileTree :=
  { tree with entries := (place, entry) :: tree.entries.filter (fun other => other.1 ≠ place) }

def putFolder (tree : FileTree) (place : List String) : FileTree :=
  if (tree.entry? place).isSome then tree else tree.put place .folder

/-- Adds an entry at a path below the working folder, with the folders on the way there. -/
def putHere (tree : FileTree) (path : String) (entry : Entry) : FileTree :=
  let names := (parts path).filter (fun part => !part.isEmpty && part ≠ ".")
  let folders := (List.range names.length).map (fun count => tree.home ++ names.take count)
  (folders.foldl putFolder tree).put (tree.home ++ names) entry

/-- A machine with an empty working folder, among the temporary ones, and a sink. -/
def machine (homePath : String) : FileTree :=
  { home := ["tmp", "home"]
    homePath
    entries :=
      [(["tmp", "home"], .folder), (["tmp"], .folder), (["dev", "null"], .sink), (["dev"], .folder)] }

def pathOf (tree : FileTree) (place : List String) : String :=
  if tree.home.isPrefixOf place then "/".intercalate (tree.homePath :: place.drop tree.home.length)
  else "/".intercalate ("" :: place)

def maxNameSize : Nat := 255

def maxPathSize : Nat := 4095

/-- Whether a text can be a path at all. -/
def isPath (path : String) : Bool :=
  path.utf8ByteSize ≤ maxPathSize && (parts path).all (fun part => part.utf8ByteSize ≤ maxNameSize) &&
    !path.toList.contains (Char.ofNat 0)

/-- Follows the parts of a path from a place on. The root leads back to itself. -/
def walk (tree : FileTree) : (place parts : List String) → Option (List String)
  | place, [] => some place
  | place, part :: rest =>
    if tree.entry? place ≠ some .folder then none
    else if part.isEmpty || part = "." then tree.walk place rest
    else if part = ".." then tree.walk place.dropLast rest
    else if (tree.entry? (place ++ [part])).isSome then tree.walk (place ++ [part]) rest
    else none

def start (tree : FileTree) (path : String) : List String :=
  if path.toList.head? = some '/' then [] else tree.home

def locate (tree : FileTree) (path : String) : Option (List String) :=
  if isPath path then tree.walk (tree.start path) (parts path) else none

def find (tree : FileTree) (path : String) : Option FoundFile := do
  let place ← tree.locate path
  match ← tree.entry? place with
  | .file text => some { fullPath := tree.pathOf place, text }
  | _ => none

def read (tree : FileTree) (path : String) : Option String := do
  (← tree.entry? (← tree.locate path)).text?

/-- Whether files can be made in a folder: the folder around the working folder and everything below it
is open to all. -/
def isOpen (tree : FileTree) (folder : List String) : Bool := tree.home.dropLast.isPrefixOf folder

/-- Writes a text to the file in a folder with a name, if that is possible. -/
def writeIn (tree : FileTree) (folder : List String) (name text : String) : Option FileTree :=
  if tree.entry? folder ≠ some .folder || ["", ".", ".."].contains name then none
  else
    match tree.entry? (folder ++ [name]) with
    | some .folder => none
    | some .sink => some tree
    | _ => if tree.isOpen folder then some (tree.put (folder ++ [name]) (.file (some text))) else none

def write (tree : FileTree) (path text : String) : Option FileTree := do
  if ¬isPath path then none
  let name ← (parts path).getLast?
  let folder ← tree.walk (tree.start path) (parts path).dropLast
  tree.writeIn folder name text

/-- The texts of the files in the working folder, by name. -/
def texts (tree : FileTree) : List (String × String) :=
  tree.entries.filterMap fun
    | (place, .file (some text)) =>
      match place.drop tree.home.length with
      | [name] => if tree.home.isPrefixOf place then some (name, text) else none
      | _ => none
    | _ => none

/-- The files of the working folder that are new or have another text than before. -/
def changes (before after : FileTree) : List (String × String) :=
  after.texts.filter
    (fun (name, text) => before.entry? (before.home ++ [name]) ≠ some (.file (some text)))

end FileTree

/-- A tree together with what was told and printed. -/
structure Session where
  files : FileTree
  told : String := ""
  printed : String := ""

/-- The host that works in memory. -/
def Session.host : Host (StateM Session) where
  find path := do return (← get).files.find path
  read path := do return (← get).files.read path
  write path text := do
    match (← get).files.write path text with
    | some files =>
      modify fun session => { session with files }
      return true
    | none => return false
  tell line := modify fun session => { session with told := session.told ++ line }
  print text := modify fun session => { session with printed := session.printed ++ text }

def runIn (files : FileTree) (arguments : Arguments) : Except RunFault Unit × Session :=
  (run Session.host arguments).run.run { files }

end CommandLine

end RobotBlocks
