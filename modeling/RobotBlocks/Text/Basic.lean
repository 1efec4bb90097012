/-!
# Texts

How a text begins, which characters are blank, and how a text is written as a literal.

A character is blank if it has the White_Space property: the controls from tab to carriage return,
the space, and the separators of other scripts. Trimming a text takes the blank characters off both
ends and nothing else.

A literal stands between two quote characters. Inside it the backslash, the line feed, the carriage
return, the tab and the quote character itself are written with a backslash before them; every other
character stands for itself. Both targets read such literals, with either quote.
-/

set_option autoImplicit false

namespace RobotBlocks.Text

/-- What follows some characters, if a text begins with them. -/
def after? : (start : List Char) → List Char → Option (List Char)
  | [], cs => some cs
  | s :: start, c :: cs => if s = c then after? start cs else none
  | _ :: _, [] => none

/-- Whether a character has the White_Space property. -/
def isBlank (c : Char) : Bool :=
  let n := c.toNat
  (0x9 ≤ n && n ≤ 0xD) || n == 0x20 || n == 0x85 || n == 0xA0 || n == 0x1680 ||
    (0x2000 ≤ n && n ≤ 0x200A) || n == 0x2028 || n == 0x2029 || n == 0x202F || n == 0x205F ||
    n == 0x3000

def trimChars (cs : List Char) : List Char :=
  ((cs.dropWhile isBlank).reverse.dropWhile isBlank).reverse

/-- The text without the blank characters at either end. -/
def trim (s : String) : String := String.ofList (trimChars s.toList)

def allBlank (s : String) : Bool := s.toList.all isBlank

/-- How one character is written inside a literal with the given quote. -/
def escapeChar (quote c : Char) : List Char :=
  if c = '\\' then ['\\', '\\']
  else if c = '\n' then ['\\', 'n']
  else if c = '\r' then ['\\', 'r']
  else if c = '\t' then ['\\', 't']
  else if c = quote then ['\\', c]
  else [c]

def quoteChars (quote : Char) (cs : List Char) : List Char :=
  quote :: (cs.flatMap (escapeChar quote) ++ [quote])

/-- The literal that stands for a text. -/
def quote (mark : Char) (s : String) : String := String.ofList (quoteChars mark s.toList)

end RobotBlocks.Text
