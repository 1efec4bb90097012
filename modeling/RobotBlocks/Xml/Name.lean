import RobotBlocks.Xml.Chars

/-!
# Names in XML

The name of an element or of an attribute has a namespace before its colon, or no colon at all.
-/

set_option autoImplicit false

namespace RobotBlocks.Xml

/-- A name with the namespace before its colon, if there is one. -/
structure QualifiedName where
  space : Option String
  base : String
  deriving DecidableEq, Repr

namespace QualifiedName

/-- The parts of a name: at most one colon, with something on both sides. -/
def split? (name : List Char) : Option QualifiedName :=
  match name.span (· ≠ ':') with
  | ([], _) => none
  | (base, []) => some { space := none, base := String.ofList base }
  | (space, _ :: base) =>
    if base.isEmpty || base.contains ':' then none
    else some { space := some (String.ofList space), base := String.ofList base }

/-- The name with some characters, which have to be those of a name. -/
def ofChars? : List Char → Option QualifiedName
  | first :: rest =>
    if isNameStart first && rest.all isNameChar then split? (first :: rest) else none
  | [] => none

/-- The namespaces that need no declaration. No element can be in them. -/
def builtIn : List String := ["xml", "xmlns"]

/-- The address that stands for a namespace that is built in. -/
def address (path : List String) : String := "/".intercalate (["http:", "", "www.w3.org"] ++ path)

def xmlAddress : String := address ["XML", "1998", "namespace"]

def declarationAddress : String := address ["2000", "xmlns", ""]

end QualifiedName

end RobotBlocks.Xml
