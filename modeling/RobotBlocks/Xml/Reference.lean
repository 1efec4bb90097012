import RobotBlocks.Text.Count
import RobotBlocks.Xml.Chars

/-!
# References in XML text

Text and attribute values may hold references: five characters have names, and every character of a
document can be given by its number, in decimal digits or, after an `x`, in hexadecimal ones. Other
names stand for the entities that a document declares.
-/

set_option autoImplicit false

namespace RobotBlocks.Xml

/-- The number with the given digits to a base; a plus sign may stand before them. -/
def numberIn? (base : Nat) (digit : Char → Option Nat) (cs : List Char) : Option Nat :=
  match (match cs with | '+' :: rest => rest | cs => cs) with
  | [] => none
  | digits => digits.foldlM (fun n c => (digit c).map (fun d => n * base + d)) 0

def documentChar? (version : Version) (n : Nat) : Option Char :=
  if n.isValidChar ∧ version.allows (Char.ofNat n) then some (Char.ofNat n) else none

/-- The character with a number as it is written in a reference. -/
def numbered? (version : Version) : List Char → Option Char
  | 'x' :: digits => (numberIn? 16 Text.hexDigit? digits).bind (documentChar? version)
  | digits => (numberIn? 10 Text.digit? digits).bind (documentChar? version)

def namedChars : List (String × Char) :=
  [("lt", '<'), ("gt", '>'), ("amp", '&'), ("apos", '\''), ("quot", '"')]

inductive Referent where
  | char (c : Char)
  | entity (text : List Char)
  deriving DecidableEq, Repr

/-- The entities of a document, the name before the text. The name of an entity that is for the
document type only begins with a percent sign. -/
abbrev Entities := List (List Char × List Char)

/-- Adds an entity; of several with one name the first counts. -/
def Entities.declare (entities : Entities) (name text : List Char) : Entities :=
  if (entities.lookup name).isSome then entities else (name, text) :: entities

/-- What a reference stands for, given what is between its ampersand and its semicolon. -/
def referent? (version : Version) (entities : Entities) : List Char → Option Referent
  | '#' :: number => (numbered? version number).map .char
  | name =>
    match namedChars.lookup (String.ofList name) with
    | some c => some (.char c)
    | none => (entities.lookup name).map .entity

/-- Whether a character can stand in a reference behind the characters that it has already. -/
def continuesReference (name : List Char) (c : Char) : Bool :=
  if name.isEmpty then isNameStart c || c = '#' else isNameChar c

/-- The characters of a text without entities, with its references replaced. The first argument holds
the characters of an open reference, the newest first. -/
def decodeFrom (version : Version) : Option (List Char) → List Char → Option (List Char)
  | none, [] => some []
  | some _, [] => none
  | none, '&' :: rest => decodeFrom version (some []) rest
  | none, c :: rest =>
    if version.allowsPlain c then (decodeFrom version none rest).map (c :: ·) else none
  | some name, ';' :: rest =>
    match referent? version [] name.reverse with
    | some (.char c) => (decodeFrom version none rest).map (c :: ·)
    | _ => none
  | some name, c :: rest =>
    if continuesReference name c then decodeFrom version (some (c :: name)) rest else none

/-- The characters of a text without entities, with its references replaced by what they stand
for. -/
def decode (version : Version) (cs : List Char) : Option (List Char) := decodeFrom version none cs

end RobotBlocks.Xml
