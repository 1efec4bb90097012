import RobotBlocks.Identifier
import RobotBlocks.Target

/-!
# Paths and class names

A class that is given no name is called after its file: after what an identifier can keep of the name
of the file without its extension.
-/

set_option autoImplicit false

namespace RobotBlocks

namespace Path

def parts : List Char → List (List Char)
  | [] => [[]]
  | c :: rest =>
    if c = '/' then [] :: parts rest
    else
      match parts rest with
      | first :: more => (c :: first) :: more
      | [] => [[c]]

/-- The name of the file at a path: the last part that leads anywhere, unless that leads back. -/
def fileName? (path : List Char) : Option (List Char) :=
  ((parts path).filter (fun part => part ≠ [] && part ≠ ['.'])).getLast?.filter
    (fun name => name ≠ ['.', '.'])

/-- A file name without its extension: what is before the last dot, or the whole name if nothing
is. -/
def stem (name : List Char) : List Char :=
  let before := ((name.reverse.dropWhile (fun c => c ≠ '.')).drop 1).reverse
  if before.isEmpty then name else before

def className (path : String) : String :=
  let identifier := Identifier.ofNameChars (((fileName? path.toList).map stem).getD [])
  let identifier := String.ofList identifier
  if identifier.isEmpty || Identifier.isReserved identifier then ({} : ClassOptions).className
  else identifier

end Path

end RobotBlocks
