import RobotBlocks.Json.Number
import RobotBlocks.Text.Count

/-!
# JSON documents

Robot configurations are JSON documents. The reader accepts the strict grammar only: no text after
the value, no trailing commas, no leading zeros, no control characters in strings, no surrogate
without its partner, no number past the range of binary64. Of several members with one name the last
counts. Arrays and objects nest up to a fixed depth; it bounds the recursion of the reader.

Numbers, truth values and `null` carry nothing here, since no configuration looks at them.
-/

set_option autoImplicit false

namespace RobotBlocks

inductive Json where
  /-- A number, a truth value or `null`. -/
  | plain
  | text (value : String)
  | array (items : List Json)
  /-- The members in the order of the document. -/
  | object (members : List (String × Json))

namespace Json

open RobotBlocks.Text (hexDigit?)

/-- The member with a name; a value that is no object has none. -/
def get? : Json → String → Option Json
  | object members, name => (members.reverse.find? (fun member => member.1 = name)).map Prod.snd
  | _, _ => none

def items? : Json → Option (List Json)
  | array items => some items
  | _ => none

def text? : Json → Option String
  | text value => some value
  | _ => none

/-- What a reader gives back: a result and the characters after it. -/
abbrev Reader (α : Type) := List Char → Option (α × List Char)

def skipBlank (cs : List Char) : List Char :=
  cs.dropWhile (fun c => c = ' ' || c = '\n' || c = '\t' || c = '\r')

def readUnit : Reader Nat
  | a :: b :: c :: d :: rest =>
    match hexDigit? a, hexDigit? b, hexDigit? c, hexDigit? d with
    | some a, some b, some c, some d => some (((a * 16 + b) * 16 + c) * 16 + d, rest)
    | _, _, _, _ => none
  | _ => none

/-- The character of one or two sixteen-bit units, of which the first is read already. -/
def readUnits (unit : Nat) (rest : List Char) : Option (Char × List Char) :=
  if 0xDC00 ≤ unit ∧ unit ≤ 0xDFFF then none
  else if 0xD800 ≤ unit ∧ unit ≤ 0xDBFF then
    match rest with
    | '\\' :: 'u' :: rest =>
      match readUnit rest with
      | some (low, rest) =>
        if 0xDC00 ≤ low ∧ low ≤ 0xDFFF then
          some (Char.ofNat (0x10000 + (unit - 0xD800) * 0x400 + (low - 0xDC00)), rest)
        else none
      | none => none
    | _ => none
  else some (Char.ofNat unit, rest)

def readEscape : Reader Char
  | '"' :: rest => some ('"', rest)
  | '\\' :: rest => some ('\\', rest)
  | '/' :: rest => some ('/', rest)
  | 'b' :: rest => some (Char.ofNat 8, rest)
  | 'f' :: rest => some (Char.ofNat 12, rest)
  | 'n' :: rest => some ('\n', rest)
  | 'r' :: rest => some ('\r', rest)
  | 't' :: rest => some ('\t', rest)
  | 'u' :: rest => (readUnit rest).bind (fun (unit, rest) => readUnits unit rest)
  | _ => none

/-- The rest of a string after the characters read so far, which are given newest first; `steps`
bounds the number of characters left. -/
def readString : (steps : Nat) → List Char → Reader String
  | 0, _, _ => none
  | _ + 1, _, [] => none
  | _ + 1, acc, '"' :: rest => some (String.ofList acc.reverse, rest)
  | steps + 1, acc, '\\' :: rest =>
    match readEscape rest with
    | some (c, rest) => readString steps (c :: acc) rest
    | none => none
  | steps + 1, acc, c :: rest => if c.toNat < 0x20 then none else readString steps (c :: acc) rest

/-- The characters up to the first that cannot stand in a number. -/
def spanNumber (cs : List Char) : List Char × List Char :=
  cs.span (fun c => c.isDigit || c = '-' || c = '+' || c = '.' || c = 'e' || c = 'E')

/-- A number of the grammar that is in range. -/
def readNumber (cs : List Char) : Option (Json × List Char) :=
  let (number, rest) := spanNumber cs
  if (Number.ofChars? number).any Number.inRange then some (plain, rest) else none

mutual

/-- A value; `depth` bounds the arrays and objects inside one another, `steps` the length of the
text. -/
def readValue (steps : Nat) : (depth : Nat) → Reader Json
  | depth, cs =>
    match skipBlank cs with
    | '"' :: rest => (readString steps [] rest).map (fun (value, rest) => (text value, rest))
    | '[' :: rest =>
      match depth with
      | 0 => none
      | depth + 1 =>
        match skipBlank rest with
        | ']' :: rest => some (array [], rest)
        | rest => readItems steps depth steps [] rest
    | '\x7b' :: rest =>
      match depth with
      | 0 => none
      | depth + 1 =>
        match skipBlank rest with
        | '\x7d' :: rest => some (object [], rest)
        | rest => readMembers steps depth steps [] rest
    | 't' :: 'r' :: 'u' :: 'e' :: rest => some (plain, rest)
    | 'f' :: 'a' :: 'l' :: 's' :: 'e' :: rest => some (plain, rest)
    | 'n' :: 'u' :: 'l' :: 'l' :: rest => some (plain, rest)
    | cs => readNumber cs
termination_by depth => (depth, 0)

/-- The items of an array after those read so far, which are given newest first. -/
def readItems (steps : Nat) (depth : Nat) : (left : Nat) → List Json → Reader Json
  | 0, _, _ => none
  | left + 1, acc, cs =>
    match readValue steps depth cs with
    | none => none
    | some (item, rest) =>
      match skipBlank rest with
      | ',' :: rest => readItems steps depth left (item :: acc) rest
      | ']' :: rest => some (array (item :: acc).reverse, rest)
      | _ => none
termination_by left => (depth, left)

/-- The members of an object after those read so far, which are given newest first. -/
def readMembers (steps : Nat) (depth : Nat) : (left : Nat) → List (String × Json) → Reader Json
  | 0, _, _ => none
  | left + 1, acc, cs =>
    match skipBlank cs with
    | '"' :: rest =>
      match readString steps [] rest with
      | none => none
      | some (name, rest) =>
        match skipBlank rest with
        | ':' :: rest =>
          match readValue steps depth rest with
          | none => none
          | some (value, rest) =>
            match skipBlank rest with
            | ',' :: rest => readMembers steps depth left ((name, value) :: acc) rest
            | '\x7d' :: rest => some (object ((name, value) :: acc).reverse, rest)
            | _ => none
        | _ => none
    | _ => none
termination_by left => (depth, left)

end

def maxDepth : Nat := 127

def read? (s : String) : Option Json :=
  let cs := s.toList
  match readValue (cs.length + 1) maxDepth cs with
  | some (value, rest) => if (skipBlank rest).isEmpty then some value else none
  | none => none

end Json

end RobotBlocks
