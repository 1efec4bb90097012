/-!
# Encodings

A document can name the encoding of what follows its declaration. The text of a document comes here as
characters that were read as UTF-8; if another encoding is named, the same bytes are read once more.
-/

set_option autoImplicit false

namespace RobotBlocks.Xml

inductive Encoding where
  | utf8
  | latin1
  | utf16
  | ascii
  deriving DecidableEq, Repr

namespace Encoding

/-- Whether a name agrees with a label as far as both of them go; case does not matter. -/
def agrees (label name : List Char) : Bool :=
  (label.zip name).all (fun (l, c) => l = c.toLower)

/-- The labels of the encodings, in the order in which they are tried. -/
def labels : List (String × Encoding) :=
  [("utf-8", utf8), ("utf8", utf8), ("iso-8859-1", latin1), ("latin1", latin1), ("utf-16", utf16),
   ("utf16", utf16), ("ascii", ascii), ("us-ascii", ascii)]

/-- The encoding with a name: that of the first label that agrees with it. -/
def ofName? (name : String) : Option Encoding :=
  (labels.find? (fun label => agrees label.1.toList name.toList)).map Prod.snd

/-- The bytes of characters in UTF-8, each as the character with its number. -/
def bytesOf (cs : List Char) : List Char :=
  cs.flatMap (fun c => (String.utf8EncodeChar c).map (fun byte => Char.ofNat byte.toNat))

/-- Characters read once more in an encoding. A byte order mark says that the encoding is UTF-8, so
that no other can be named after it; and text in UTF-16 does not begin like this one. -/
def reread? (marked : Bool) (encoding : Encoding) (cs : List Char) : Option (List Char) :=
  match encoding with
  | utf8 => some cs
  | latin1 => if marked then none else some (bytesOf cs)
  | ascii => if marked || cs.any (fun c => 0x7F < c.toNat) then none else some cs
  | utf16 => none

end Encoding

end RobotBlocks.Xml
