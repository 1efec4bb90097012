import RobotBlocks.Text.Basic
import RobotBlocks.Xml.Encoding
import RobotBlocks.Xml.Name
import RobotBlocks.Xml.Reference

/-!
# The declaration of a document

A document may begin with a declaration. It states the version of XML, and after that, if it likes, the
encoding of what follows and whether the document stands alone. The name of a part may have a
namespace, which goes behind its first letter.
-/

set_option autoImplicit false

namespace RobotBlocks.Xml

/-- What a document is read with. -/
structure Prolog where
  version : Version := .oneZero
  /-- The characters after the declaration. -/
  body : List Char

namespace Prolog

open RobotBlocks.Text (after?)

def skipSpace (cs : List Char) : List Char := cs.dropWhile isSpace

/-- Whether characters hold the end mark of the declaration. -/
def holdsEnd : List Char → Bool
  | '?' :: '>' :: _ => true
  | _ :: rest => holdsEnd rest
  | [] => false

/-- A quoted value and what follows it. Neither a tag nor the end of the declaration is in it. -/
def value? (version : Version) : List Char → Option (String × List Char)
  | [] => none
  | mark :: cs =>
    if mark = '"' || mark = '\'' then
      match cs.span (· ≠ mark) with
      | (raw, _ :: rest) =>
        if raw.contains '<' || holdsEnd raw then none
        else (decode version raw).map (fun chars => (String.ofList chars, rest))
      | (_, []) => none
    else none

/-- The value of a part, and what follows it. The name of the part is its first letter and the rest of
it; white space stands before the part. -/
def part? (version : Version) (first : Char) (base : String) (cs : List Char) :
    Option (String × List Char) :=
  if cs.head?.any isSpace then do
    let rest ← after? [first] (skipSpace cs)
    let (name, rest) := rest.span isNameChar
    let name ← QualifiedName.ofChars? name
    let rest ← after? ['='] (skipSpace rest)
    if name.base = base then value? version (skipSpace rest) else none
  else none

/-- The value of a part that may be missing, and what follows it. -/
def optionalPart (version : Version) (first : Char) (base : String) (cs : List Char) :
    Option String × List Char :=
  match part? version first base cs with
  | some (value, rest) => (some value, rest)
  | none => (none, cs)

/-- What a declaration states, given what follows its name and whether a byte order mark stands before
it. -/
def declared? (marked : Bool) (cs : List Char) : Option Prolog := do
  let (number, rest) ← part? .oneZero 'v' "ersion" cs
  let version ← Version.ofNumber? number
  let (encoding, rest) := optionalPart version 'e' "ncoding" rest
  let (standalone, rest) := optionalPart version 's' "tandalone" rest
  if standalone.all (fun value => value = "yes" || value = "no") then
    let rest ← after? ['?', '>'] (skipSpace rest)
    match encoding with
    | none => return { version, body := rest }
    | some name =>
      let encoding ← Encoding.ofName? name
      return { version, body := ← encoding.reread? marked rest }
  else none

/-- Takes the optional byte order mark and the optional declaration off a document. -/
def read? (cs : List Char) : Option Prolog :=
  let (marked, cs) :=
    match cs with
    | c :: rest => if c.toNat = 0xFEFF then (true, rest) else (false, c :: rest)
    | [] => (false, [])
  match after? "<?xml".toList cs with
  | some (c :: rest) => if isSpace c then declared? marked (c :: rest) else some { body := cs }
  | _ => some { body := cs }

end Prolog

end RobotBlocks.Xml
