import RobotBlocks.Expr
import RobotBlocks.Proofs.Grammar.Parse

/-!
# The tokens of expressions

`Expr.tree` is the tree that an expression stands for in the grammar of both targets, and
`Expr.tokens` are the tokens that it is printed as. Expressions are `Readable` if their literals,
names and operators are those of the grammar. The text of an operand ends where a space, a comma or a
closing bracket follows (`Ends`), and it begins with a character that turns neither a minus nor a
negation before it into a longer sign (`starting`).

Names and numbers fall into their tokens here, and so do items if each of them does (`reads_items`).
-/

set_option autoImplicit false

namespace RobotBlocks

open Grammar List RobotBlocks.Expr
open String (toList_append toList_inj)
open Identifier (isIdentifierChar)

/-! ## Trees and tokens -/

/-- The words of a name with points in it. -/
def pathWords (code : String) : List (List Char) := code.toList.splitOn '.'

def pathTree (code : String) : Tree :=
  match (pathWords code).map String.ofList with
  | [] => .name ""
  | first :: members => members.foldl .member (.name first)

def pathTokens (code : String) : List Token :=
  match (pathWords code).map String.ofList with
  | [] => []
  | first :: members => .word first :: members.flatMap fun word => [.sign ".", .word word]

theorem exists_pathWords (code : String) : ∃ first members, pathWords code = first :: members :=
  exists_cons_of_ne_nil (splitOn_ne_nil _ _)

namespace Expr

/-- A number literal without its minus. -/
def magnitude (literal : String) : String :=
  if startsWithMinus literal then String.ofList literal.toList.tail else literal

/-- The tree of a number without its sign. What has no digits is written as a name. -/
def magnitudeTree (code : String) : Tree :=
  if code.toList.head?.any Char.isDigit then .number code else pathTree code

def magnitudeTokens (code : String) : List Token :=
  if code.toList.head?.any Char.isDigit then [.number code] else pathTokens code

mutual

/-- The tree that an expression stands for. A literal with a minus is the negative of a number. -/
def tree : Expr → Tree
  | number literal =>
    if startsWithMinus literal then .negate (magnitudeTree (magnitude literal))
    else magnitudeTree (magnitude literal)
  | text _ content => .text content
  | name word => .name word
  | verbatim code => .name code
  | path code => pathTree code
  | list items => .list (trees items)
  | call function arguments => .call (pathTree function) (trees arguments)
  | method receiver member arguments => .call (.member receiver.tree member) (trees arguments)
  | negate operand => .negate operand.tree
  | not operand => .not operand.tree
  | cast type operand => .cast type operand.tree
  | binary operator left right => .binary operator.symbol left.tree right.tree
  | conditional test yes no => .conditional test.tree yes.tree no.tree

def trees : List Expr → List Tree
  | [] => []
  | expr :: rest => expr.tree :: trees rest

end

def inParens (ts : List Token) : List Token := .sign "(" :: (ts ++ [.sign ")"])

/-- The tokens of an expression of level `inner` for a place that allows `outer`. -/
def wrapTokens (ts : List Token) (inner outer : Precedence) : List Token :=
  if Precedence.needsParens inner outer then inParens ts else ts

/-- The tokens of a minus in front of a text with the given tokens. -/
def withMinusTokens (code : String) (ts : List Token) : List Token :=
  .sign "-" :: if startsWithMinus code then inParens ts else ts

mutual

/-- The tokens that an expression is printed as. -/
def tokens : Expr → List Token
  | number literal =>
    if startsWithMinus literal then .sign "-" :: magnitudeTokens (magnitude literal)
    else magnitudeTokens (magnitude literal)
  | text _ content => [.text content]
  | name word => [.word word]
  | verbatim code => [.word code]
  | path code => pathTokens code
  | list items => .sign "[" :: (itemTokens items ++ [.sign "]"])
  | call function arguments => pathTokens function ++ inParens (itemTokens arguments)
  | method receiver member arguments =>
    wrapTokens receiver.tokens receiver.level .member ++
      .sign "." :: .word member :: inParens (itemTokens arguments)
  | negate operand =>
    withMinusTokens (Precedence.wrap operand.print operand.level .unary)
      (wrapTokens operand.tokens operand.level .unary)
  | not operand => .sign "!" :: wrapTokens operand.tokens operand.level .unary
  | cast type operand =>
    .sign "(" :: .word type :: .sign ")" :: wrapTokens operand.tokens operand.level .unary
  | binary operator left right =>
    wrapTokens left.tokens left.level operator.leftContext ++
      .sign operator.symbol :: wrapTokens right.tokens right.level operator.rightContext
  | conditional test yes no =>
    wrapTokens test.tokens test.level Precedence.conditional.tighter ++
      .sign "?" :: (wrapTokens yes.tokens yes.level .conditional ++
        .sign ":" :: wrapTokens no.tokens no.level .conditional)

def itemTokens : List Expr → List Token
  | [] => []
  | [expr] => wrapTokens expr.tokens expr.level .comma
  | expr :: next :: rest =>
    wrapTokens expr.tokens expr.level .comma ++ .sign "," :: itemTokens (next :: rest)

end

end Expr

/-! ## Readable expressions -/

/-- A number literal, with or without a minus. -/
inductive IsLiteral : String → Prop
  | positive {literal : String} (h : IsNumber literal.toList) : IsLiteral literal
  | negative {literal : String} {digits : List Char} (h : IsNumber digits)
      (hliteral : literal.toList = '-' :: digits) : IsLiteral literal

/-- A name with points in it that does not begin with the name of a type. -/
def IsPath (code : String) : Prop :=
  (∀ word ∈ pathWords code, IsWord word) ∧
    ∀ word ∈ (pathWords code).head?, String.ofList word ∉ typeWords

instance (code : String) : Decidable (IsPath code) :=
  inferInstanceAs (Decidable ((∀ word ∈ pathWords code, IsWord word) ∧
    ∀ word ∈ (pathWords code).head?, String.ofList word ∉ typeWords))

/-- A number without its sign. -/
def IsMagnitude (code : String) : Prop := IsNumber code.toList ∨ IsPath code

/-- The operators of the grammar. -/
def Operator.all : List Operator :=
  [.plus, .minus, .times, .divide, .equal, .notEqual, .less, .lessOrEqual, .greater,
   .greaterOrEqual, .and, .or]

/-- An expression whose literals, names and operators are those of the grammar. -/
inductive Readable : Expr → Prop
  | number {literal : String} (h : IsMagnitude (magnitude literal)) : Readable (.number literal)
  | text {mark : Char} (h : mark = '\'' ∨ mark = '"') (content : String) :
      Readable (.text mark content)
  | name {word : String} (h : IsWord word.toList) (htype : word ∉ typeWords) :
      Readable (.name word)
  | path {code : String} (h : IsPath code) : Readable (.path code)
  | list {items : List Expr} (h : ∀ item ∈ items, Readable item) : Readable (.list items)
  | call {function : String} {arguments : List Expr} (hfunction : IsPath function)
      (h : ∀ argument ∈ arguments, Readable argument) : Readable (.call function arguments)
  | method {items arguments : List Expr} {member : String} (hitems : ∀ item ∈ items, Readable item)
      (hmember : IsWord member.toList) (h : ∀ argument ∈ arguments, Readable argument) :
      Readable (.method (.list items) member arguments)
  | negate {operand : Expr} (h : Readable operand) : Readable (.negate operand)
  | not {operand : Expr} (h : Readable operand) : Readable (.not operand)
  | cast {type : String} {operand : Expr} (htype : type ∈ typeWords) (h : Readable operand) :
      Readable (.cast type operand)
  | binary {operator : Operator} {left right : Expr} (hoperator : operator ∈ Operator.all)
      (hleft : Readable left) (hright : Readable right) : Readable (.binary operator left right)
  | conditional {test yes no : Expr} (htest : Readable test) (hyes : Readable yes)
      (hno : Readable no) : Readable (.conditional test yes no)

/-! ## The first character -/

/-- Whether a character may begin an expression. -/
def starting (c : Char) : Bool :=
  isIdentifierChar c || ['\'', '"', '[', '(', '!', '-'].contains c

/-- A text that begins like an expression. -/
def Begins (code : String) : Prop := ∃ c, code.toList.head? = some c ∧ starting c = true

variable {code : String} {rest : List Char} {ts : List Token}

theorem begins_append (h : Begins code) (more : String) : Begins (code ++ more) := by
  obtain ⟨c, hcode, hc⟩ := h
  exact ⟨c, by simp [head?_append, hcode], hc⟩

variable {c : Char}

/-- A character in front decides how a text begins. -/
theorem begins_of_head? {code : String} (h : code.toList.head? = some c)
    (hc : c ∈ ['\'', '"', '[', '(', '!', '-']) : Begins code := by
  refine ⟨c, h, ?_⟩
  have hstarting : ['\'', '"', '[', '(', '!', '-'].all starting = true := by decide
  exact all_eq_true.1 hstarting c hc

theorem begins_wrap (h : Begins code) (inner outer : Precedence) :
    Begins (Precedence.wrap code inner outer) := by
  unfold Precedence.wrap
  split
  · exact begins_of_head? (c := '(') (by simp) (by decide)
  · exact h

theorem begins_of_head?_isIdentifierChar (h : code.toList.head? = some c)
    (hc : isIdentifierChar c = true) : Begins code :=
  ⟨c, h, by simp [starting, hc]⟩

theorem isIdentifierChar_of_isDigit (h : c.isDigit = true) : isIdentifierChar c = true := by
  simp [isIdentifierChar, Char.isAlphanum, h]

theorem begins_of_isWord {word : String} (h : IsWord word.toList) : Begins word := by
  obtain ⟨c, cs, hword⟩ := exists_cons_of_ne_nil h.ne_nil
  exact begins_of_head?_isIdentifierChar (by simp [hword]) (h.chars c (by simp [hword]))

/-- The characters of a name with points in it are its words with points between them. -/
theorem toList_eq_intercalate (code : String) : code.toList = ['.'].intercalate (pathWords code) :=
  (intercalate_splitOn '.').symm

theorem head?_of_isPath (h : IsPath code) : ∃ c, code.toList.head? = some c ∧
    isIdentifierChar c = true ∧ c.isDigit = false := by
  have hcode := toList_eq_intercalate code
  obtain ⟨first, members, hwords⟩ := exists_pathWords code
  have hfirst := h.1 first (by simp [hwords])
  obtain ⟨c, cs, rfl⟩ := exists_cons_of_ne_nil hfirst.ne_nil
  refine ⟨c, ?_, hfirst.chars c mem_cons_self, hfirst.head c rfl⟩
  rw [hcode, hwords]
  cases members <;> simp [intercalate_cons_cons]

theorem begins_of_isPath (h : IsPath code) : Begins code := by
  obtain ⟨c, hhead, hc, -⟩ := head?_of_isPath h
  exact begins_of_head?_isIdentifierChar hhead hc

theorem head?_of_isNumber {digits : List Char} (h : IsNumber digits) :
    ∃ c, digits.head? = some c ∧ c.isDigit = true := by
  obtain ⟨hwhole, -, -⟩ := h
  obtain ⟨c, cs, hcs⟩ := exists_cons_of_ne_nil hwhole.1
  subst hcs
  exact ⟨c, rfl, hwhole.2 c mem_cons_self⟩

variable {literal : String}

namespace Expr

theorem magnitudeTree_of_isNumber (h : IsNumber code.toList) : magnitudeTree code = .number code := by
  obtain ⟨c, hhead, hc⟩ := head?_of_isNumber h
  simp [magnitudeTree, hhead, hc]

/-- A number without its sign is either a numeral or a name. -/
theorem magnitude_cases (h : IsMagnitude code) :
    (IsNumber code.toList ∧ magnitudeTree code = .number code ∧
        magnitudeTokens code = [.number code]) ∨
      (IsPath code ∧ magnitudeTree code = pathTree code ∧ magnitudeTokens code = pathTokens code) := by
  rcases h with h | h
  · obtain ⟨c, hhead, hc⟩ := head?_of_isNumber h
    exact .inl ⟨h, magnitudeTree_of_isNumber h, by simp [magnitudeTokens, hhead, hc]⟩
  · obtain ⟨c, hhead, -, hc⟩ := head?_of_isPath h
    exact .inr ⟨h, by simp [magnitudeTree, hhead, hc], by simp [magnitudeTokens, hhead, hc]⟩

theorem head?_of_isMagnitude (h : IsMagnitude code) :
    ∃ c, code.toList.head? = some c ∧ isIdentifierChar c = true := by
  rcases h with h | h
  · obtain ⟨c, hhead, hc⟩ := head?_of_isNumber h
    exact ⟨c, hhead, isIdentifierChar_of_isDigit hc⟩
  · obtain ⟨c, hhead, hc, -⟩ := head?_of_isPath h
    exact ⟨c, hhead, hc⟩

theorem magnitude_of_minus (h : startsWithMinus literal = true) :
    literal = "-" ++ magnitude literal := by
  have hhead : literal.toList.head? = some '-' := of_decide_eq_true h
  obtain ⟨cs, hcs⟩ := head?_eq_some_iff.1 hhead
  refine toList_inj.1 ?_
  simp [magnitude, h, hcs]

theorem magnitude_of_plain (h : startsWithMinus literal = false) : magnitude literal = literal := by
  simp [magnitude, h]

end Expr

theorem IsLiteral.isNumber_magnitude (h : IsLiteral literal) :
    IsNumber (magnitude literal).toList := by
  cases h with
  | positive h =>
    obtain ⟨c, hhead, hc⟩ := head?_of_isNumber h
    have hminus : startsWithMinus literal = false := by
      simp only [startsWithMinus, hhead, decide_eq_false_iff_not]
      rintro ⟨⟩
      exact absurd hc (by decide)
    rwa [magnitude_of_plain hminus]
  | negative h hliteral => simpa [magnitude, startsWithMinus, hliteral] using h

/-- No printed expression makes a sign before it longer, but for a minus. -/
theorem begins_print {e : Expr} (h : Readable e) : Begins e.print := by
  induction h with
  | @number literal h =>
    obtain ⟨c, hhead, hc⟩ := head?_of_isMagnitude h
    cases hminus : startsWithMinus literal with
    | true => exact begins_of_head? (c := '-') (of_decide_eq_true hminus) (by decide)
    | false =>
      rw [magnitude_of_plain hminus] at hhead
      exact begins_of_head?_isIdentifierChar hhead hc
  | @text mark h content =>
    refine begins_of_head? (c := mark) (by simp [print, Text.quote, Text.quoteChars]) ?_
    rcases h with rfl | rfl <;> decide
  | name h htype => exact begins_of_isWord h
  | path h => exact begins_of_isPath h
  | list h ih => exact begins_of_head? (c := '[') (by simp [print]) (by decide)
  | call hfunction h ih =>
    simp only [print, String.append_assoc]
    exact begins_append (begins_of_isPath hfunction) _
  | method hitems hmember h ihitems ih =>
    exact begins_of_head? (c := '[')
      (by simp [print, level, Precedence.wrap, Precedence.needsParens, Precedence.rank])
      (by decide)
  | negate h ih =>
    refine begins_of_head? (c := '-') ?_ (by decide)
    unfold print withMinus
    split <;> simp
  | not h ih => exact begins_of_head? (c := '!') (by simp [print]) (by decide)
  | cast htype h ih => exact begins_of_head? (c := '(') (by simp [print]) (by decide)
  | binary hoperator hleft hright ihleft ihright =>
    simp only [print, String.append_assoc]
    exact begins_append (begins_wrap ihleft _ _) _
  | conditional htest hyes hno ihtest ihyes ihno =>
    simp only [print, String.append_assoc]
    exact begins_append (begins_wrap ihtest _ _) _

/-- No expression turns a negation before it into a longer sign, and one that does not begin with a
minus turns no minus before it into a longer sign. -/
theorem notMem_prolonging (h : starting c = true) :
    c ∉ prolonging "!" ∧ (c ≠ '-' → c ∉ prolonging "-") := by
  have hnot : (prolonging "!").all (fun d => !starting d) = true := by decide
  have hminus : (prolonging "-").all (fun d => d = '-' || !starting d) = true := by decide
  refine ⟨fun hmem => ?_, fun hne hmem => ?_⟩
  · simpa [h] using all_eq_true.1 hnot c hmem
  · simpa [h, hne] using all_eq_true.1 hminus c hmem

/-! ## Texts as tokens -/

theorem reads_inParens (h : ∀ rest, Ends rest → Reads code.toList ts rest) (rest : List Char) :
    Reads ("(" ++ code ++ ")").toList (inParens ts) rest := by
  rw [toList_append, toList_append, append_assoc]
  have hclose : Reads ")".toList [.sign ")"] rest := reads_bracket (by decide) rest
  exact (reads_bracket (by decide) _).append ((h _ (ends_cons (by decide))).append hclose)

theorem reads_wrap {inner outer : Precedence} (h : ∀ rest, Ends rest → Reads code.toList ts rest)
    (hrest : Ends rest) :
    Reads (Precedence.wrap code inner outer).toList (wrapTokens ts inner outer) rest := by
  unfold Precedence.wrap wrapTokens
  split
  · exact reads_inParens h rest
  · exact h rest hrest

theorem reads_point {word rest : List Char} (h : IsWord word) :
    Reads ".".toList [.sign "."] (word ++ rest) := by
  refine reads_sign (by decide) fun c hc hmem => ?_
  have hpoint : (prolonging ".").all (fun d => !isIdentifierChar d) = true := by decide
  obtain ⟨d, cs, rfl⟩ := exists_cons_of_ne_nil h.ne_nil
  obtain rfl : d = c := by simpa using hc
  simpa [h.chars d mem_cons_self] using all_eq_true.1 hpoint d hmem

theorem reads_intercalate {first : List Char} {members : List (List Char)} (hfirst : IsWord first)
    (hmembers : ∀ word ∈ members, IsWord word)
    (hrest : ∀ c ∈ rest.head?, isIdentifierChar c = false) :
    Reads (['.'].intercalate (first :: members))
      (.word (String.ofList first) ::
        (members.map String.ofList).flatMap fun word => [.sign ".", .word word]) rest := by
  induction members generalizing first with
  | nil => simpa using reads_word hfirst hrest
  | cons next members ih =>
    have hnext : IsWord next := hmembers next mem_cons_self
    have hmore := ih hnext (forall_mem_cons.1 hmembers).2
    have hpoint : Reads ['.'] [.sign "."] (['.'].intercalate (next :: members) ++ rest) := by
      cases members with
      | nil => simpa using reads_point hnext
      | cons other members =>
        rw [intercalate_cons_cons, append_assoc, append_assoc]
        exact reads_point hnext
    rw [intercalate_cons_cons, append_assoc]
    exact (reads_word hfirst (by simp; decide)).append (hpoint.append hmore)

theorem reads_path (h : IsPath code) (hrest : ∀ c ∈ rest.head?, isIdentifierChar c = false) :
    Reads code.toList (pathTokens code) rest := by
  obtain ⟨first, members, hwords⟩ := exists_pathWords code
  rw [toList_eq_intercalate, pathTokens, hwords]
  refine reads_intercalate (h.1 first (by simp [hwords])) (fun word hword => ?_) hrest
  exact h.1 word (by simp [hwords, hword])

theorem reads_magnitude (h : IsMagnitude code) (hrest : Ends rest) :
    Reads code.toList (magnitudeTokens code) rest := by
  rcases magnitude_cases h with ⟨h, -, htokens⟩ | ⟨h, -, htokens⟩
  · rw [htokens]
    simpa using reads_number h hrest
  · rw [htokens]
    exact reads_path h (hrest.of_all (by decide))

/-- The text of an expression falls into its tokens, whatever may follow an expression. -/
def Expr.ReadsAsTokens (e : Expr) : Prop := ∀ rest, Ends rest → Reads e.print.toList e.tokens rest

theorem reads_items {items : List Expr}
    (h : ∀ item ∈ items, item.ReadsAsTokens) (hrest : Ends rest) :
    Reads (", ".intercalate (printAll items)).toList (itemTokens items) rest := by
  induction items with
  | nil => exact Reads.nil rest
  | cons item items ih =>
    have hitem := h item mem_cons_self
    have hmore := ih (forall_mem_cons.1 h).2
    cases items with
    | nil => simpa [printAll, itemTokens] using reads_wrap hitem hrest
    | cons next items =>
      rw [printAll, String.intercalate_cons_of_ne_nil (by simp [printAll]),
        toList_append, toList_append, append_assoc, itemTokens]
      have hcomma : ", ".toList = ",".toList ++ [' '] := by decide
      refine (reads_wrap hitem (ends_cons (by decide))).append ?_
      rw [hcomma, append_assoc]
      exact (reads_bracket (by decide) _).append ((reads_space _).append hmore)

end RobotBlocks
