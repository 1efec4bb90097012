import RobotBlocks.Xml.Element

/-!
# Block sketches

A sketch is what the document says about a block and about those below it, before anything is
checked: one sketch for each block element that counts. In a holder (a value, a statement, a
next) the first `block` counts, or the first `shadow` if there is no block; of several next holders the
last one counts.
-/

set_option autoImplicit false

namespace RobotBlocks

open RobotBlocks.Xml (Element)

/-- What the document says about a single block. -/
structure BlockSource where
  attributes : Dict String
  /-- The fields by name, of which the last of a name counts. -/
  fields : Dict String
  /-- The text of the last comment. -/
  comment : Option String
  /-- The last mutation element. -/
  mutation : Option Element
  /-- The names of the elements that mean nothing, in order. -/
  ignored : List String

/-- What the document says about a block and those below it. -/
inductive Sketch where
  | mk (source : BlockSource) (values statements : List (String × Sketch)) (next : Option Sketch)

namespace BlockSource

/-- The value of the name attribute, empty if there is none. -/
def nameOf (element : Element) : String := (element.attributes.get? "name").getD ""

def field? (element : Element) : Option (String × String) :=
  if element.name = "field" then some (nameOf element, element.text) else none

/-- The elements that mean something in a block. -/
def meaningful : List String := ["field", "comment", "mutation", "value", "statement", "next"]

/-- The last of some elements that has a name. -/
def last? (name : String) (elements : List Element) : Option Element :=
  (elements.filter (fun element => element.name = name)).getLast?

def ofElement (element : Element) : BlockSource :=
  { attributes := element.attributes
    fields := Dict.ofList (element.children.filterMap field?)
    comment := (last? "comment" element.children).map Element.text
    mutation := last? "mutation" element.children
    ignored := (element.children.map Element.name).filter (fun name => !meaningful.contains name) }

end BlockSource

namespace Sketch

mutual

def ofElement : Element → Sketch
  | ⟨name, attributes, text, children⟩ =>
    .mk (BlockSource.ofElement ⟨name, attributes, text, children⟩)
      (holders "value" children) (holders "statement" children) (nextOf none children)

/-- The sketches in the holders with a tag, each with the name of its holder. -/
def holders (tag : String) : List Element → List (String × Sketch)
  | [] => []
  | ⟨name, attributes, text, children⟩ :: rest =>
    if name = tag then
      match (first "block" children).or (first "shadow" children) with
      | some sketch =>
        (BlockSource.nameOf ⟨name, attributes, text, children⟩, sketch) :: holders tag rest
      | none => holders tag rest
    else holders tag rest

/-- The sketch in the last next holder; the first argument is that of the holders before. -/
def nextOf : Option Sketch → List Element → Option Sketch
  | found, [] => found
  | found, ⟨name, _, _, children⟩ :: rest =>
    nextOf
      (if name = "next" then (first "block" children).or (first "shadow" children) else found) rest

def first (tag : String) : List Element → Option Sketch
  | [] => none
  | element :: rest => if element.name = tag then some (ofElement element) else first tag rest

end

end Sketch

end RobotBlocks
