import RobotBlocks.Xml.Reference
import RobotBlocks.Xml.Token

/-!
# Document types

A document type declares entities. Everything else in it is passed over: other declarations, comments,
instructions, quoted texts and the rest of a declaration after its value.

In the text of an entity, numbers stand for characters and parameters for their texts; other references
stay as they are. A parameter outside of declarations puts its text in its place, so that it can hold
declarations. `Doctype.step` says what a token means at a place.
-/

set_option autoImplicit false

namespace RobotBlocks.Xml

namespace Doctype

/-- The text of an entity as far as it was read. -/
structure Value where
  name : List Char
  /-- The quotation mark that ends the text. -/
  mark : Char
  text : List Char := []
  deriving DecidableEq, Repr

/-- Where in a document type reading is. Characters are held newest first, but for the names of
entities whose value is read. -/
inductive Place where
  | outside
  /-- In a quoted text between declarations. -/
  | quoted (mark : Char)
  | comment
  /-- In the word that says what is declared. -/
  | keyword (word : List Char)
  | beforeName
  /-- Before the name of a parameter. -/
  | beforeParameter
  | name (name : List Char)
  | beforeValue (name : List Char)
  | value (value : Value)
  /-- Behind an ampersand in a value. -/
  | reference (value : Value)
  /-- In the number of a character in a value. -/
  | number (value : Value) (digits : List Char)
  /-- In the name of a parameter in a value. -/
  | parameterInValue (value : Value) (name : List Char)
  /-- In the name of a parameter between declarations. -/
  | parameter (name : List Char)
  /-- In what is passed over up to the end of a declaration. -/
  | remainder
  deriving DecidableEq, Repr

inductive Move where
  | goto (place : Place)
  /-- An entity is declared; what follows its value is passed over. -/
  | declare (name text : List Char)
  /-- A text is read in place of a parameter. -/
  | insert (text : List Char)
  | finish
  deriving DecidableEq, Repr

def stepOutside : Token → Option Move
  | .tagEnd => some .finish
  | .declarationStart => some (.goto (.keyword []))
  | .char '%' => some (.goto (.parameter ['%']))
  | .commentStart => some (.goto .comment)
  | .quote mark => some (.goto (.quoted mark))
  | .literalStart | .literalEnd => none
  | _ => some (.goto .outside)

def stepKeyword (word : List Char) : Token → Option Move
  | .char c =>
    if c.isUpper then some (.goto (.keyword (c :: word)))
    else if isSpace c then
      match String.ofList word.reverse with
      | "ENTITY" => some (.goto .beforeName)
      | "NOTATION" | "ELEMENT" | "ATTLIST" => some (.goto .remainder)
      | _ => none
    else none
  | _ => none

def stepBeforeName : Token → Option Move
  | .char '%' => some (.goto .beforeParameter)
  | .char c =>
    if isSpace c then some (.goto .beforeName)
    else if isNameStart c then some (.goto (.name [c]))
    else none
  | _ => none

def stepBeforeParameter : Token → Option Move
  | .char c =>
    if isSpace c then some (.goto .beforeParameter)
    else if isNameStart c then some (.goto (.name [c, '%']))
    else none
  | _ => none

def stepName (name : List Char) : Token → Option Move
  | .char c =>
    if isSpace c then some (.goto (.beforeValue name.reverse))
    else if isNameChar c then some (.goto (.name (c :: name)))
    else none
  | _ => none

/-- What a token does before the value of an entity. An entity that is kept elsewhere, which the words
`SYSTEM` and `PUBLIC` say, counts as empty. -/
def stepBeforeValue (name : List Char) : Token → Option Move
  | .quote mark => some (.goto (.value { name, mark }))
  | .char c =>
    if isSpace c then some (.goto (.beforeValue name))
    else if c = 'S' || c = 'P' then some (.declare name [])
    else none
  | _ => none

def Value.push (value : Value) (c : Char) : Value := { value with text := c :: value.text }

def stepValue (version : Version) (value : Value) : Token → Option Move
  | .quote mark =>
    if mark = value.mark then some (.declare value.name value.text.reverse)
    else some (.goto (.value (value.push mark)))
  | .ampersand | .char '&' => some (.goto (.reference value))
  | .char '%' => some (.goto (.parameterInValue value ['%']))
  | .char c => if version.allows c then some (.goto (.value (value.push c))) else none
  | _ => none

def stepReference (version : Version) (value : Value) : Token → Option Move
  | .char '#' => some (.goto (.number value []))
  | .char c => if version.allows c then some (.goto (.value ((value.push '&').push c))) else none
  | _ => none

def stepNumber (version : Version) (value : Value) (digits : List Char) : Token → Option Move
  | .semicolon | .char ';' =>
    (numbered? version digits.reverse).map (fun c => .goto (.value (value.push c)))
  | .char c => if version.allows c then some (.goto (.number value (c :: digits))) else none
  | _ => none

/-- What a token does in the name of a parameter, given what its end does with the text. -/
def stepParameter (entities : Entities) (name : List Char) (onward : List Char → Place)
    (onText : List Char → Move) : Token → Option Move
  | .semicolon | .char ';' => (entities.lookup name.reverse).map onText
  | .char c => if isNameChar c then some (.goto (onward (c :: name))) else none
  | _ => none

def step (version : Version) (entities : Entities) : Place → Token → Option Move
  | .outside, token => stepOutside token
  | .quoted mark, token => some (.goto (if token = .quote mark then .outside else .quoted mark))
  | .comment, token => some (.goto (if token = .commentEnd then .outside else .comment))
  | .keyword word, token => stepKeyword word token
  | .beforeName, token => stepBeforeName token
  | .beforeParameter, token => stepBeforeParameter token
  | .name name, token => stepName name token
  | .beforeValue name, token => stepBeforeValue name token
  | .value value, token => stepValue version value token
  | .reference value, token => stepReference version value token
  | .number value digits, token => stepNumber version value digits token
  | .parameterInValue value name, token =>
    stepParameter entities name (.parameterInValue value)
      (fun text => .goto (.value { value with text := text.reverse ++ value.text })) token
  | .parameter name, token => stepParameter entities name .parameter .insert token
  | .remainder, .tagEnd => some (.goto .outside)
  | .remainder, .declarationStart => none
  | .remainder, _ => some (.goto .remainder)

end Doctype

end RobotBlocks.Xml
