import RobotBlocks.Xml.Declaration
import RobotBlocks.Xml.Doctype
import RobotBlocks.Xml.Element
import RobotBlocks.Xml.Source

/-!
# XML documents

A document begins with an optional declaration and has at least one root element; of several the
first counts, but all must be proper. Outside the roots there are only white space, comments,
instructions and, before the first root, a document type.

`Reader.feed` takes the tokens of a document one after the other. It keeps the open elements as a
stack of frames, so that nesting costs no recursion. A run of blank text is dropped, unless a literal
section with something in it stands directly before it or an entity begins it.
-/

set_option autoImplicit false

namespace RobotBlocks.Xml

/-- An element that is still open. -/
structure Frame where
  name : QualifiedName
  attributes : Dict String
  /-- The namespaces that are known inside the element. -/
  spaces : List String
  /-- The text read so far, the newest run first. -/
  text : List (List Char) := []
  /-- The elements read so far, the newest first. -/
  children : List Element := []

def Frame.close (frame : Frame) : Element :=
  { name := frame.name.base
    attributes := frame.attributes
    text := String.ofList frame.text.reverse.flatten
    children := frame.children.reverse }

/-- A tag that opens an element, as far as it was read. -/
structure Tag where
  name : QualifiedName
  /-- The attributes, the newest first. -/
  attributes : List (QualifiedName × String) := []
  /-- The namespaces that the tag declares. -/
  spaces : List String := []

namespace Tag

/-- The tag with a name; no element is in a namespace that is built in. -/
def ofName? (name : List Char) : Option Tag := do
  let name ← QualifiedName.ofChars? name
  if name.space.any QualifiedName.builtIn.contains then none else return { name }

/-- Whether a namespace can be declared: neither that of declarations, nor `xml` as anything else than
it is, nor any as nothing. -/
def canDeclare (space address : String) : Bool :=
  space ≠ "xmlns" && (space ≠ "xml" || address = QualifiedName.xmlAddress) && !address.isEmpty

/-- Whether an address can be that of the default namespace. -/
def canBeDefault (address : String) : Bool :=
  !(QualifiedName.builtIn ++ [QualifiedName.xmlAddress, QualifiedName.declarationAddress]).contains
    address

/-- The tag with an attribute more: a declaration of a namespace, or an attribute proper, of which
none may come twice. -/
def add? (tag : Tag) (name : QualifiedName) (value : String) : Option Tag :=
  if name.space = some "xmlns" then
    if canDeclare name.base value then some { tag with spaces := name.base :: tag.spaces } else none
  else if name.space.isNone && name.base = "xmlns" then
    if canBeDefault value then some tag else none
  else if tag.attributes.any (fun entry => entry.1 = name) then none
  else some { tag with attributes := (name, value) :: tag.attributes }

/-- The frame of the element that a tag opens among the given namespaces. -/
def frame? (tag : Tag) (spaces : List String) : Option Frame :=
  let spaces := tag.spaces ++ spaces
  let known (name : QualifiedName) := name.space.all spaces.contains
  if known tag.name && tag.attributes.all (fun entry => known entry.1) then
    some
      { name := tag.name
        spaces
        attributes := Dict.ofList (tag.attributes.reverse.map (fun e => (e.1.base, e.2))) }
  else none

end Tag

/-- The value of an attribute, as far as it was read. -/
structure AttributeValue where
  tag : Tag
  name : QualifiedName
  /-- The quotation mark around the value. -/
  mark : Char
  text : List Char := []

/-- Where in a document reading is. Characters are held newest first. -/
inductive Place where
  | content
  | reference (name : List Char)
  | openingName (name : List Char)
  /-- Between attributes, behind white space. -/
  | tag (tag : Tag)
  | attributeName (tag : Tag) (name : List Char)
  | beforeEquals (tag : Tag) (name : QualifiedName)
  | beforeValue (tag : Tag) (name : QualifiedName)
  | value (value : AttributeValue)
  /-- In a reference in a value. -/
  | valueReference (value : AttributeValue) (name : List Char)
  | afterValue (tag : Tag)
  | closingName (name : List Char)
  | afterClosingName (name : QualifiedName)
  | comment
  /-- In a section of literal text. -/
  | literal (text : List Char)
  | instructionName (name : List Char)
  | instruction
  | doctype (place : Doctype.Place)

structure Reader where
  version : Version := .oneZero
  place : Place := .content
  /-- The run of text that is being read, the newest character first. -/
  run : List Char := []
  /-- Whether the run is dropped if no more comes. -/
  blank : Bool := true
  /-- The open elements, the innermost first. -/
  stack : List Frame := []
  /-- The first root, once it is closed. -/
  root : Option Element := none
  /-- Whether a document type may still come. -/
  beforeDoctype : Bool := true
  entities : Entities := []

/-- The reader after a token, with the text that is read before everything else, if any. -/
abbrev Reader.Result := Option (Reader × List Char)

namespace Reader

def goto (reader : Reader) (place : Place) : Result := some ({ reader with place }, [])

/-- The namespaces that are known at the current place. -/
def spaces (reader : Reader) : List String :=
  match reader.stack with
  | frame :: _ => frame.spaces
  | [] => QualifiedName.builtIn

/-- The reader after some characters of a run of text. -/
def push (reader : Reader) (chars : List Char) (blank : Bool) : Reader :=
  { reader with run := chars.reverse ++ reader.run, blank := reader.blank && blank }

/-- The reader after a run of literal text or of other text that is kept. -/
def keep (reader : Reader) (run : List Char) : Reader :=
  match reader.stack with
  | frame :: rest => { reader with stack := { frame with text := run.reverse :: frame.text } :: rest }
  | [] => reader

def flush (reader : Reader) : Reader :=
  let kept := if reader.blank then reader else reader.keep reader.run
  { kept with run := [], blank := true }

def finish (reader : Reader) (element : Element) (stack : List Frame) : Reader :=
  match stack with
  | frame :: rest =>
    { reader with stack := { frame with children := element :: frame.children } :: rest }
  | [] => { reader with stack := [], root := reader.root.or (some element) }

/-- The end of a tag that opens an element, and that may close it at once. -/
def openElement (reader : Reader) (tag : Tag) (closed : Bool) : Result := do
  let frame ← tag.frame? reader.spaces
  let reader := { reader with place := .content }
  if closed then return (reader.finish frame.close reader.stack, [])
  else return ({ reader with stack := frame :: reader.stack }, [])

def closeElement (reader : Reader) (name : QualifiedName) : Result :=
  match reader.stack with
  | frame :: rest =>
    if frame.name = name then
      some ({ reader with place := .content }.finish frame.close rest, [])
    else none
  | [] => none

def endValue (reader : Reader) (value : AttributeValue) : Result := do
  let tag ← value.tag.add? value.name (String.ofList value.text.reverse)
  reader.goto (.afterValue tag)

/-- A mark that begins markup. -/
def feedMarkup (reader : Reader) : Token → Result
  | .openingStart => { reader with beforeDoctype := false }.goto (.openingName [])
  | .closingStart => if reader.stack.isEmpty then none else reader.goto (.closingName [])
  | .commentStart => reader.goto .comment
  | .literalStart => if reader.stack.isEmpty then none else reader.goto (.literal [])
  | .instructionStart => reader.goto (.instructionName [])
  | .doctypeStart =>
    if reader.beforeDoctype then { reader with beforeDoctype := false }.goto (.doctype .outside)
    else none
  | _ => none

/-- A token between tags. Outside the roots there is white space only. -/
def feedContent (reader : Reader) (token : Token) : Result :=
  match token with
  | .char c =>
    if reader.stack.isEmpty then if isSpace c then some (reader, []) else none
    else if reader.version.allowsPlain c then some (reader.push [c] (isSpace c), []) else none
  | .tagEnd | .emptyTagEnd | .commentEnd | .instructionEnd | .equals | .quote _ | .semicolon =>
    if reader.stack.isEmpty then none else some (reader.push token.chars false, [])
  | .ampersand => if reader.stack.isEmpty then none else reader.goto (.reference [])
  | token => reader.flush.feedMarkup token

/-- A token in a reference between tags. The text of an entity is read in its place; the run of text
that it begins is not blank. -/
def feedReference (reader : Reader) (name : List Char) : Token → Result
  | .char c => if continuesReference name c then reader.goto (.reference (c :: name)) else none
  | .semicolon =>
    match referent? reader.version reader.entities name.reverse with
    | some (.char c) => (reader.push [c] (isSpace c)).goto .content
    | some (.entity text) =>
      some ({ reader.push [] (!reader.run.isEmpty) with place := .content }, text)
    | none => none
  | _ => none

def feedOpeningName (reader : Reader) (name : List Char) : Token → Result
  | .char c =>
    if isNameChar c then reader.goto (.openingName (c :: name))
    else if isSpace c then do reader.goto (.tag (← Tag.ofName? name.reverse))
    else none
  | .tagEnd => do reader.openElement (← Tag.ofName? name.reverse) false
  | .emptyTagEnd => do reader.openElement (← Tag.ofName? name.reverse) true
  | _ => none

def feedTag (reader : Reader) (tag : Tag) : Token → Result
  | .char c =>
    if isSpace c then reader.goto (.tag tag)
    else if isNameStart c then reader.goto (.attributeName tag [c])
    else none
  | .tagEnd => reader.openElement tag false
  | .emptyTagEnd => reader.openElement tag true
  | _ => none

def feedAttributeName (reader : Reader) (tag : Tag) (name : List Char) : Token → Result
  | .char c =>
    if isNameChar c then reader.goto (.attributeName tag (c :: name))
    else if isSpace c then do
      reader.goto (.beforeEquals tag (← QualifiedName.ofChars? name.reverse))
    else none
  | .equals => do reader.goto (.beforeValue tag (← QualifiedName.ofChars? name.reverse))
  | _ => none

def feedBeforeEquals (reader : Reader) (tag : Tag) (name : QualifiedName) : Token → Result
  | .char c => if isSpace c then reader.goto (.beforeEquals tag name) else none
  | .equals => reader.goto (.beforeValue tag name)
  | _ => none

def feedBeforeValue (reader : Reader) (tag : Tag) (name : QualifiedName) : Token → Result
  | .char c => if isSpace c then reader.goto (.beforeValue tag name) else none
  | .quote mark => reader.goto (.value { tag, name, mark })
  | _ => none

/-- A token in the value of an attribute. No tag and no instruction begins there, but all other marks
stand for themselves. -/
def feedValue (reader : Reader) (value : AttributeValue) (token : Token) : Result :=
  match token with
  | .openingStart | .instructionStart => none
  | .ampersand => reader.goto (.valueReference value [])
  | .char c =>
    if reader.version.allowsPlain c then
      reader.goto (.value { value with text := c :: value.text })
    else none
  | token =>
    if token = .quote value.mark then reader.endValue value
    else reader.goto (.value { value with text := token.chars.reverse ++ value.text })

/-- A token in a reference in a value. The text of an entity becomes part of the value as it is. -/
def feedValueReference (reader : Reader) (value : AttributeValue) (name : List Char) :
    Token → Result
  | .char c =>
    if continuesReference name c then reader.goto (.valueReference value (c :: name)) else none
  | .semicolon =>
    match referent? reader.version reader.entities name.reverse with
    | some (.char c) => reader.goto (.value { value with text := c :: value.text })
    | some (.entity text) => reader.goto (.value { value with text := text.reverse ++ value.text })
    | none => none
  | _ => none

def feedAfterValue (reader : Reader) (tag : Tag) : Token → Result
  | .char c => if isSpace c then reader.goto (.tag tag) else none
  | .tagEnd => reader.openElement tag false
  | .emptyTagEnd => reader.openElement tag true
  | _ => none

def feedClosingName (reader : Reader) (name : List Char) : Token → Result
  | .char c =>
    if isNameChar c then reader.goto (.closingName (c :: name))
    else if isSpace c then do reader.goto (.afterClosingName (← QualifiedName.ofChars? name.reverse))
    else none
  | .tagEnd => do reader.closeElement (← QualifiedName.ofChars? name.reverse)
  | _ => none

def feedAfterClosingName (reader : Reader) (name : QualifiedName) : Token → Result
  | .char c => if isSpace c then reader.goto (.afterClosingName name) else none
  | .tagEnd => reader.closeElement name
  | _ => none

def feedComment (reader : Reader) : Token → Result
  | .commentEnd => reader.goto .content
  | .char c => if reader.version.allows c then reader.goto .comment else none
  | _ => reader.goto .comment

def feedLiteral (reader : Reader) (text : List Char) (token : Token) : Result :=
  match token with
  | .literalEnd => { reader.keep text with blank := text.all isSpace }.goto .content
  | .char c => if reader.version.allows c then reader.goto (.literal (c :: text)) else none
  | token => reader.goto (.literal (token.chars.reverse ++ text))

/-- Whether an instruction can have a name. That of a declaration, in any case, is taken. -/
def namesInstruction (name : List Char) : Bool :=
  !name.isEmpty && name.map Char.toLower ≠ "xml".toList

def feedInstructionName (reader : Reader) (name : List Char) : Token → Result
  | .char c =>
    if (if name.isEmpty then isNameStart c else isNameChar c) then
      reader.goto (.instructionName (c :: name))
    else if isSpace c && namesInstruction name.reverse then reader.goto .instruction
    else none
  | .instructionEnd => if namesInstruction name.reverse then reader.goto .content else none
  | _ => none

def feedInstruction (reader : Reader) : Token → Result
  | .instructionEnd => reader.goto .content
  | .char c => if reader.version.allows c then reader.goto .instruction else none
  | _ => reader.goto .instruction

def feedDoctype (reader : Reader) (place : Doctype.Place) (token : Token) : Result := do
  match ← Doctype.step reader.version reader.entities place token with
  | .goto place => reader.goto (.doctype place)
  | .declare name text =>
    let entities := reader.entities.declare name text
    Reader.goto { reader with entities } (.doctype .remainder)
  | .insert text => return ({ reader with place := .doctype .outside }, text)
  | .finish => reader.goto .content

def feed (reader : Reader) (token : Token) : Result :=
  match reader.place with
  | .content => reader.feedContent token
  | .reference name => reader.feedReference name token
  | .openingName name => reader.feedOpeningName name token
  | .tag tag => reader.feedTag tag token
  | .attributeName tag name => reader.feedAttributeName tag name token
  | .beforeEquals tag name => reader.feedBeforeEquals tag name token
  | .beforeValue tag name => reader.feedBeforeValue tag name token
  | .value value => reader.feedValue value token
  | .valueReference value name => reader.feedValueReference value name token
  | .afterValue tag => reader.feedAfterValue tag token
  | .closingName name => reader.feedClosingName name token
  | .afterClosingName name => reader.feedAfterClosingName name token
  | .comment => reader.feedComment token
  | .literal text => reader.feedLiteral text token
  | .instructionName name => reader.feedInstructionName name token
  | .instruction => reader.feedInstruction token
  | .doctype place => reader.feedDoctype place token

/-- The first root, if the document is complete. -/
def result? (reader : Reader) (scanner : Scanner) : Option Element :=
  match reader.place with
  | .content => if scanner.atRest && reader.stack.isEmpty then reader.root else none
  | _ => none

/-- Reads all that is left. -/
def readAll? (scanner : Scanner) (reader : Reader) (source : Source) : Option Element :=
  if source.chars.isEmpty then reader.result? scanner
  else
    match _hnext : scanner.next? source.chars with
    | none => none
    | some (token, scanner) =>
      match reader.feed token with
      | none => none
      | some (reader, text) =>
        match _hins : (source.drop token.chars.length).insert? text with
        | none => none
        | some source => readAll? scanner reader source
termination_by source.measure
decreasing_by exact Source.measure_next ‹_› ‹_›

end Reader

/-- The first root element of a document; a text that is no document has none. -/
def read? (s : String) : Option Element := do
  let prolog ← Prolog.read? s.toList
  Reader.readAll? {} { version := prolog.version } { chars := prolog.body }

end RobotBlocks.Xml
