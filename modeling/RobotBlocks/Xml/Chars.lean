/-!
# Character classes of XML

Which characters may stand in a document, which begin or continue a name, and which are white space.
Names may have letters of all scripts. The two versions of XML differ in control characters: the first
has almost none, the second has them all, but some only where they cannot be mistaken for text.
-/

set_option autoImplicit false

namespace RobotBlocks.Xml

/-- Whether a number lies in one of the ranges, ends included. -/
def inRanges (ranges : List (Nat × Nat)) (n : Nat) : Bool :=
  ranges.any (fun range => range.1 ≤ n && n ≤ range.2)

def isSpace (c : Char) : Bool := c = ' ' || c = '\t' || c = '\n' || c = '\r'

inductive Version where
  | oneZero
  | oneOne
  deriving DecidableEq, Repr

namespace Version

def ofNumber? : String → Option Version
  | "1.0" => some oneZero
  | "1.1" => some oneOne
  | _ => none

/-- The characters past the control characters. -/
def printableRanges : List (Nat × Nat) := [(0x20, 0xD7FF), (0xE000, 0xFFFD), (0x10000, 0x10FFFF)]

/-- The control characters that the second version does not have as they are in text. -/
def restrictedRanges : List (Nat × Nat) :=
  [(0x1, 0x8), (0xB, 0xC), (0xE, 0x1F), (0x7F, 0x84), (0x86, 0x9F)]

/-- Whether a document may hold a character at all, in a comment or by its number for instance. -/
def allows : Version → Char → Bool
  | oneZero, c => isSpace c || inRanges printableRanges c.toNat
  | oneOne, c => inRanges [(0x1, 0x1F)] c.toNat || inRanges printableRanges c.toNat

/-- Whether a character may stand as it is in text and in the values of attributes. -/
def allowsPlain : Version → Char → Bool
  | oneZero, c => oneZero.allows c
  | oneOne, c => oneOne.allows c && !inRanges restrictedRanges c.toNat

end Version

/-- The letters beyond ASCII that may begin a name. -/
def letterRanges : List (Nat × Nat) :=
  [(0xC0, 0xD6), (0xD8, 0xF6), (0xF8, 0x2FF), (0x370, 0x37D), (0x37F, 0x1FFF), (0x200C, 0x200D),
   (0x2070, 0x218F), (0x2C00, 0x2FEF), (0x3001, 0xD7FF), (0xF900, 0xFDCF), (0xFDF0, 0xFFFD),
   (0x10000, 0xEFFFF)]

def isNameStart (c : Char) : Bool :=
  c.isAlpha || c = '_' || c = ':' || inRanges letterRanges c.toNat

def isNameChar (c : Char) : Bool :=
  isNameStart c || c.isDigit || c = '-' || c = '.' ||
    inRanges [(0xB7, 0xB7), (0x300, 0x36F), (0x203F, 0x2040)] c.toNat

end RobotBlocks.Xml
