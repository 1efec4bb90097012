import RobotBlocks.Xml.Chars

/-!
# The tokens of an XML text

A text is cut into tokens: the marks that begin and end markup, and single characters. What counts as a
mark depends on what the scanner is inside of. `Scanner.next?` gives the first token of a text, and
`next?_isPrefix` says that a token is what the text begins with, so that nothing is lost.
-/

set_option autoImplicit false

namespace RobotBlocks.Xml

/-- A token: a mark of markup, or a character. -/
inductive Token where
  | openingStart
  | closingStart
  | tagEnd
  | emptyTagEnd
  | instructionStart
  | instructionEnd
  | commentStart
  | commentEnd
  | literalStart
  | literalEnd
  | doctypeStart
  | declarationStart
  | equals
  /-- A quotation mark, single or double. -/
  | quote (mark : Char)
  | ampersand
  | semicolon
  | char (c : Char)
  deriving DecidableEq, Repr

def Token.chars : Token → List Char
  | openingStart => ['<']
  | closingStart => ['<', '/']
  | tagEnd => ['>']
  | emptyTagEnd => ['/', '>']
  | instructionStart => ['<', '?']
  | instructionEnd => ['?', '>']
  | commentStart => ['<', '!', '-', '-']
  | commentEnd => ['-', '-', '>']
  | literalStart => ['<', '!', '[', 'C', 'D', 'A', 'T', 'A', '[']
  | literalEnd => [']', ']', '>']
  | doctypeStart => ['<', '!', 'D', 'O', 'C', 'T', 'Y', 'P', 'E']
  | declarationStart => ['<', '!']
  | equals => ['=']
  | quote mark => [mark]
  | ampersand => ['&']
  | semicolon => [';']
  | char c => [c]

theorem Token.chars_length_pos (token : Token) : 0 < token.chars.length := by
  cases token <;> simp [Token.chars]

/-- What the scanner is inside of. -/
inductive Mode where
  /-- Tags and text, or the document type. -/
  | base
  | instruction
  | comment
  | literal
  | declaration
  | quoted (mark : Char)
  deriving DecidableEq, Repr

structure Scanner where
  mode : Mode := .base
  /-- Whether the document type is open. -/
  inDoctype : Bool := false
  deriving DecidableEq, Repr

namespace Scanner

/-- What stands for itself everywhere, and whatever else is a character. -/
def plain (c : Char) : Token :=
  if c = '&' then .ampersand
  else if c = ';' then .semicolon
  else if c = '"' || c = '\'' then .quote c
  else .char c

/-- The token that begins with an angle bracket, given what follows the bracket. -/
def markup? (scanner : Scanner) : List Char → Option (Token × Scanner)
  | '?' :: _ => some (.instructionStart, { scanner with mode := .instruction })
  | '/' :: _ => some (.closingStart, scanner)
  | '!' :: '-' :: '-' :: _ => some (.commentStart, { scanner with mode := .comment })
  | '!' :: '[' :: 'C' :: 'D' :: 'A' :: 'T' :: 'A' :: '[' :: _ =>
    some (.literalStart, { scanner with mode := .literal })
  | '!' :: 'D' :: 'O' :: 'C' :: 'T' :: 'Y' :: 'P' :: 'E' :: _ =>
    some (.doctypeStart, { scanner with inDoctype := true })
  | '!' :: c :: _ =>
    if scanner.inDoctype && ['E', 'A', 'N'].contains c then
      some (.declarationStart, { scanner with mode := .declaration })
    else none
  | c :: _ => if isSpace c || isNameChar c then some (.openingStart, scanner) else none
  | [] => none

def content? (scanner : Scanner) : List Char → Option (Token × Scanner)
  | '<' :: rest => scanner.markup? rest
  | '>' :: _ => some (.tagEnd, scanner)
  | '/' :: '>' :: _ => some (.emptyTagEnd, scanner)
  | '=' :: _ => some (.equals, scanner)
  | ']' :: ']' :: '>' :: _ => some (.literalEnd, scanner)
  | c :: _ => some (plain c, scanner)
  | [] => none

def doctype? (scanner : Scanner) : List Char → Option (Token × Scanner)
  | '<' :: rest => scanner.markup? rest
  | '>' :: _ => some (.tagEnd, { scanner with inDoctype := false })
  | c :: _ => some (plain c, scanner)
  | [] => none

def instruction? (scanner : Scanner) : List Char → Option (Token × Scanner)
  | '?' :: '>' :: _ => some (.instructionEnd, { scanner with mode := .base })
  | '<' :: _ => some (.openingStart, scanner)
  | '>' :: _ => some (.tagEnd, scanner)
  | '=' :: _ => some (.equals, scanner)
  | c :: _ => some (plain c, scanner)
  | [] => none

/-- The first token of a comment; two hyphens may only end it. -/
def comment? (scanner : Scanner) : List Char → Option (Token × Scanner)
  | '-' :: '-' :: '>' :: _ => some (.commentEnd, { scanner with mode := .base })
  | '-' :: '-' :: _ => none
  | c :: _ => some (.char c, scanner)
  | [] => none

def literal? (scanner : Scanner) : List Char → Option (Token × Scanner)
  | ']' :: ']' :: '>' :: _ => some (.literalEnd, { scanner with mode := .base })
  | c :: _ => some (.char c, scanner)
  | [] => none

def declaration? (scanner : Scanner) : List Char → Option (Token × Scanner)
  | '<' :: _ => none
  | '>' :: _ => some (.tagEnd, { scanner with mode := .base })
  | c :: _ =>
    if c = '"' || c = '\'' then some (.quote c, { scanner with mode := .quoted c })
    else some (plain c, scanner)
  | [] => none

def quoted? (scanner : Scanner) (mark : Char) : List Char → Option (Token × Scanner)
  | c :: _ =>
    if c = mark then some (.quote c, { scanner with mode := .declaration })
    else some (.char c, scanner)
  | [] => none

/-- The first token of a text, and the scanner after it. -/
def next? (scanner : Scanner) (cs : List Char) : Option (Token × Scanner) :=
  match scanner.mode with
  | .base => if scanner.inDoctype then scanner.doctype? cs else scanner.content? cs
  | .instruction => scanner.instruction? cs
  | .comment => scanner.comment? cs
  | .literal => scanner.literal? cs
  | .declaration => scanner.declaration? cs
  | .quoted mark => scanner.quoted? mark cs

theorem plain_isPrefix (c : Char) (cs : List Char) : (plain c).chars <+: c :: cs := by
  have hchars : (plain c).chars = [c] := by
    unfold plain
    split
    · rename_i h; exact congrArg (fun d => [d]) h.symm
    · split
      · rename_i h; exact congrArg (fun d => [d]) h.symm
      · split <;> rfl
  rw [hchars]
  exact ⟨cs, rfl⟩

variable {scanner scanner' : Scanner} {cs : List Char} {token : Token}

theorem markup?_isPrefix (h : scanner.markup? cs = some (token, scanner')) :
    token.chars <+: '<' :: cs := by
  unfold markup? at h
  split at h
  · cases h; exact ⟨_, rfl⟩
  · cases h; exact ⟨_, rfl⟩
  · cases h; exact ⟨_, rfl⟩
  · cases h; exact ⟨_, rfl⟩
  · cases h; exact ⟨_, rfl⟩
  · split at h
    · cases h; exact ⟨_, rfl⟩
    · cases h
  · split at h
    · cases h; exact ⟨_, rfl⟩
    · cases h
  · cases h

theorem doctype?_isPrefix (h : scanner.doctype? cs = some (token, scanner')) :
    token.chars <+: cs := by
  unfold doctype? at h
  split at h
  · exact markup?_isPrefix h
  · cases h; exact ⟨_, rfl⟩
  · cases h; exact plain_isPrefix _ _
  · cases h

theorem content?_isPrefix (h : scanner.content? cs = some (token, scanner')) :
    token.chars <+: cs := by
  unfold content? at h
  split at h
  · exact markup?_isPrefix h
  · cases h; exact ⟨_, rfl⟩
  · cases h; exact ⟨_, rfl⟩
  · cases h; exact ⟨_, rfl⟩
  · cases h; exact ⟨_, rfl⟩
  · cases h; exact plain_isPrefix _ _
  · cases h

theorem instruction?_isPrefix (h : scanner.instruction? cs = some (token, scanner')) :
    token.chars <+: cs := by
  unfold instruction? at h
  split at h
  · cases h; exact ⟨_, rfl⟩
  · cases h; exact ⟨_, rfl⟩
  · cases h; exact ⟨_, rfl⟩
  · cases h; exact ⟨_, rfl⟩
  · cases h; exact plain_isPrefix _ _
  · cases h

theorem comment?_isPrefix (h : scanner.comment? cs = some (token, scanner')) :
    token.chars <+: cs := by
  unfold comment? at h
  split at h
  · cases h; exact ⟨_, rfl⟩
  · cases h
  · cases h; exact ⟨_, rfl⟩
  · cases h

theorem literal?_isPrefix (h : scanner.literal? cs = some (token, scanner')) :
    token.chars <+: cs := by
  unfold literal? at h
  split at h
  · cases h; exact ⟨_, rfl⟩
  · cases h; exact ⟨_, rfl⟩
  · cases h

theorem declaration?_isPrefix (h : scanner.declaration? cs = some (token, scanner')) :
    token.chars <+: cs := by
  unfold declaration? at h
  split at h
  · cases h
  · cases h; exact ⟨_, rfl⟩
  · split at h
    · cases h; exact ⟨_, rfl⟩
    · cases h; exact plain_isPrefix _ _
  · cases h

theorem quoted?_isPrefix {mark : Char} (h : scanner.quoted? mark cs = some (token, scanner')) :
    token.chars <+: cs := by
  unfold quoted? at h
  split at h
  · split at h
    · cases h; exact ⟨_, rfl⟩
    · cases h; exact ⟨_, rfl⟩
  · cases h

/-- A token is what the text begins with. -/
theorem next?_isPrefix (h : scanner.next? cs = some (token, scanner')) : token.chars <+: cs := by
  unfold next? at h
  split at h
  · split at h
    · exact doctype?_isPrefix h
    · exact content?_isPrefix h
  · exact instruction?_isPrefix h
  · exact comment?_isPrefix h
  · exact literal?_isPrefix h
  · exact declaration?_isPrefix h
  · exact quoted?_isPrefix h

/-- Whether a document may end here. -/
def atRest (scanner : Scanner) : Bool := scanner.mode = .base && !scanner.inDoctype

end Scanner

end RobotBlocks.Xml
