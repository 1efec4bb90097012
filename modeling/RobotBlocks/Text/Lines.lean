/-!
# Lines, indentation and comments

A line ends at a line feed, and one carriage return before that line feed belongs to the line end.
A carriage return anywhere else is part of its line, and nothing follows a final line feed.

Everything that lays out generated code is a map over lines: `indent` shifts them, `lineComment`
marks each as a comment, and `docComment` frames them. The functions work on lists of characters;
the versions for texts only convert.
-/

set_option autoImplicit false

namespace RobotBlocks.Text

/-- The lines of a text, without their line ends. -/
def lineChars : List Char → List (List Char)
  | [] => []
  | '\n' :: rest => [] :: lineChars rest
  | '\r' :: '\n' :: rest => [] :: lineChars rest
  | c :: rest =>
    match lineChars rest with
    | [] => [[c]]
    | line :: lines => (c :: line) :: lines

/-- A line moved to the right by two blanks and closed by a line feed; an empty line stays empty. -/
def indentLine (line : List Char) : List Char :=
  if line.isEmpty then ['\n'] else ' ' :: ' ' :: (line ++ ['\n'])

def indentChars (cs : List Char) : List Char := (lineChars cs).flatMap indentLine

/-- Every line of a text moved to the right by two blanks, each closed by a line feed. -/
def indent (s : String) : String := String.ofList (indentChars s.toList)

def lineCommentChars (cs : List Char) : List Char :=
  (lineChars cs).flatMap (fun line => '/' :: '/' :: ' ' :: (line ++ ['\n']))

/-- Every line of a text as a comment that runs to the end of its line. -/
def lineComment (s : String) : String := String.ofList (lineCommentChars s.toList)

/-- A text in which no star stands before a slash: the slash of each such pair is written as a
character reference. -/
def breakTerminators : List Char → List Char
  | [] => []
  | '*' :: '/' :: rest => '*' :: '&' :: '#' :: '4' :: '7' :: ';' :: breakTerminators rest
  | c :: rest => c :: breakTerminators rest

/-- A line that ends in a star between blanks loses the blank at its end. -/
def dropBlankAfterStar (line : List Char) : List Char :=
  match line.reverse with
  | ' ' :: '*' :: ' ' :: _ => line.dropLast
  | _ => line

def docLine (line : List Char) : List Char :=
  dropBlankAfterStar (' ' :: '*' :: ' ' :: breakTerminators line) ++ ['\n']

def docCommentChars (cs : List Char) : List Char :=
  "/**\n".toList ++ (lineChars cs).flatMap docLine ++ " */\n".toList

/-- A documentation comment with the lines of a text. -/
def docComment (s : String) : String := String.ofList (docCommentChars s.toList)

end RobotBlocks.Text
