import RobotBlocks.Precedence
import RobotBlocks.Proofs.Grammar.Token

/-!
# The grammar of expressions

The expressions that both targets read alike, as a grammar with one layer for each level of the order
of operators, and the parser that goes down the layers:

    conditional    = disjunction [ "?" expression ":" expression ]
    disjunction    = conjunction { "||" conjunction }
    conjunction    = equality { "&&" equality }
    equality       = relational { ( "==" | "!=" ) relational }
    relational     = additive [ ( "<" | "<=" | ">" | ">=" ) additive ]
    additive       = multiplicative { ( "+" | "-" ) multiplicative }
    multiplicative = unary { ( "*" | "/" ) unary }
    unary          = ( "-" | "!" | "(" type ")" ) unary | member
    member         = primary { "." word | "(" arguments ")" }
    primary        = number | text | word | "(" expression ")" | "[" arguments "]"

Repeated operators group from the left, the conditional from the right, and comparisons of order do
not repeat. Parentheses leave no trace in the tree.

The parser takes the parser of the expressions inside brackets as an argument (`inner`);
`expression` ties the knot, and the number of tokens bounds how deep brackets stand in one another.
-/

set_option autoImplicit false

namespace RobotBlocks.Grammar

/-- What an expression is made of. -/
inductive Tree where
  | number (literal : String)
  | text (content : String)
  | name (word : String)
  | list (items : List Tree)
  | member (receiver : Tree) (name : String)
  | call (function : Tree) (arguments : List Tree)
  | negate (operand : Tree)
  | not (operand : Tree)
  | cast (type : String) (operand : Tree)
  | binary (symbol : String) (left right : Tree)
  | conditional (test yes no : Tree)
  deriving Repr

/-- A parser gives the tree at the front of some tokens, and the tokens behind it. -/
abbrev Parser := List Token → Option (Tree × List Token)

/-- The words that make a cast of a word in parentheses. -/
def typeWords : List String :=
  ["boolean", "byte", "char", "short", "int", "long", "float", "double"]

section Layers

variable (inner : Parser)

/-- One or more expressions with commas between them, up to a closing sign. -/
def items (close : String) (ts : List Token) : Option (List Tree × List Token) :=
  match inner ts with
  | some (item, .sign symbol :: rest) =>
    if symbol = close then some ([item], rest)
    else if symbol = "," ∧ rest.length < ts.length then
      (items close rest).map fun (more, tail) => (item :: more, tail)
    else none
  | _ => none
termination_by ts.length

/-- Expressions with commas between them, or none, up to a closing sign. -/
def arguments (close : String) (ts : List Token) : Option (List Tree × List Token) :=
  if ts.head? = some (.sign close) then some ([], ts.tail) else items inner close ts

/-- Literals, words, and what stands in brackets. -/
def primary : Parser
  | .number literal :: rest => some (.number literal, rest)
  | .text content :: rest => some (.text content, rest)
  | .word word :: rest => some (.name word, rest)
  | .sign symbol :: rest =>
    if symbol = "(" then
      match inner rest with
      | some (tree, .sign close :: tail) => if close = ")" then some (tree, tail) else none
      | _ => none
    else if symbol = "[" then
      (arguments inner "]" rest).map fun (items, tail) => (.list items, tail)
    else none
  | [] => none

/-- Further members and calls of what stands on the left. -/
def suffixes (left : Tree) (ts : List Token) : Option (Tree × List Token) :=
  match ts with
  | .sign symbol :: rest =>
    if symbol = "." then
      match rest with
      | .word name :: tail => suffixes (.member left name) tail
      | _ => none
    else if symbol = "(" then
      match arguments inner ")" rest with
      | some (found, tail) =>
        if tail.length < rest.length then suffixes (.call left found) tail else none
      | none => none
    else some (left, ts)
  | _ => some (left, ts)
termination_by ts.length

def member : Parser := fun ts =>
  (primary inner ts).bind fun (tree, rest) => suffixes inner tree rest

/-- Signs, negations and casts. -/
def unary (ts : List Token) : Option (Tree × List Token) :=
  match ts with
  | .sign symbol :: rest =>
    if symbol = "-" then (unary rest).map fun (tree, tail) => (.negate tree, tail)
    else if symbol = "!" then (unary rest).map fun (tree, tail) => (.not tree, tail)
    else
      match rest with
      | .word type :: .sign close :: rest =>
        if symbol = "(" ∧ type ∈ typeWords ∧ close = ")" then
          (unary rest).map fun (tree, tail) => (.cast type tree, tail)
        else member inner ts
      | _ => member inner ts
  | _ => member inner ts
termination_by ts.length

/-- Further operands to the right of a tree, with operators before them. -/
def chain (symbols : List String) (operand : Parser) (left : Tree) (ts : List Token) :
    Option (Tree × List Token) :=
  match ts with
  | .sign symbol :: rest =>
    if symbol ∈ symbols then
      match operand rest with
      | some (right, tail) =>
        if tail.length ≤ rest.length then chain symbols operand (.binary symbol left right) tail
        else none
      | none => none
    else some (left, ts)
  | _ => some (left, ts)
termination_by ts.length

/-- Operands with operators between them that group from the left. -/
def chained (symbols : List String) (operand : Parser) : Parser := fun ts =>
  (operand ts).bind fun (left, rest) => chain symbols operand left rest

/-- An operand, or two with an operator between them. -/
def unchained (symbols : List String) (operand : Parser) : Parser := fun ts =>
  match operand ts with
  | some (left, .sign symbol :: rest) =>
    if symbol ∈ symbols then
      (operand rest).map fun (right, tail) => (.binary symbol left right, tail)
    else some (left, .sign symbol :: rest)
  | answer => answer

/-- One of two expressions, depending on a test. -/
def choice (test : Parser) : Parser := fun ts =>
  match test ts with
  | some (condition, .sign symbol :: rest) =>
    if symbol = "?" then
      match inner rest with
      | some (yes, .sign colon :: rest) =>
        if colon = ":" then
          (inner rest).map fun (no, tail) => (.conditional condition yes no, tail)
        else none
      | _ => none
    else some (condition, .sign symbol :: rest)
  | answer => answer

def multiplicative : Parser := chained ["*", "/"] (unary inner)

def additive : Parser := chained ["+", "-"] (multiplicative inner)

def relational : Parser := unchained ["<", "<=", ">", ">="] (additive inner)

def equality : Parser := chained ["==", "!="] (relational inner)

def conjunction : Parser := chained ["&&"] (equality inner)

def disjunction : Parser := chained ["||"] (conjunction inner)

/-- The layer of a level. -/
def layer : Precedence → Parser
  | .atomic | .member | .unary => unary inner
  | .multiplicative => multiplicative inner
  | .additive => additive inner
  | .relational => relational inner
  | .equality => equality inner
  | .conjunction => conjunction inner
  | .disjunction => disjunction inner
  | .conditional | .assignment | .comma | .anything => choice inner (disjunction inner)

end Layers

/-- Expressions whose brackets stand in one another less than `depth` deep. -/
def expression : (depth : Nat) → Parser
  | 0 => fun _ => none
  | depth + 1 => layer (expression depth) .conditional

def parse (ts : List Token) : Option Tree :=
  match expression (ts.length + 1) ts with
  | some (tree, []) => some tree
  | _ => none

/-- The tree of the expression that a text writes. -/
def read (code : String) : Option Tree := (tokens code.toList).bind parse

/-! ## Where a layer ends -/

/-- The signs that continue an expression, each with the level of what it makes. -/
def continuing : List (String × Precedence) :=
  [(".", .atomic), ("(", .atomic), ("*", .multiplicative), ("/", .multiplicative),
   ("+", .additive), ("-", .additive), ("<", .relational), ("<=", .relational),
   (">", .relational), (">=", .relational), ("==", .equality), ("!=", .equality),
   ("&&", .conjunction), ("||", .disjunction), ("?", .conditional)]

/-- No sign follows that continues an expression of the level or of a tighter one. -/
def Stops (level : Precedence) (ts : List Token) : Prop :=
  ∀ symbol looser, ts.head? = some (.sign symbol) → (symbol, looser) ∈ continuing →
    level.rank < looser.rank

variable {symbols : List String} {ts rest : List Token} {operand : Parser} {tree : Tree}
variable {level : Precedence} {ts : List Token}
variable {looser : Precedence}

theorem Stops.mono (h : Stops looser ts) (hrank : level.rank ≤ looser.rank) : Stops level ts :=
  fun symbol other hhead hmem => Nat.lt_of_le_of_lt hrank (h symbol other hhead hmem)

theorem stops_nil (level : Precedence) : Stops level [] := by
  simp [Stops]

/-- A closing sign or a separator continues nothing. -/
theorem stops_close {symbol : String} (h : symbol ∈ [")", "]", ",", ":"]) (level : Precedence)
    (rest : List Token) : Stops level (.sign symbol :: rest) := by
  have hclose : ∀ s ∈ [")", "]", ",", ":"], ∀ entry ∈ continuing, entry.1 ≠ s := by decide
  intro found looser hhead hmem
  cases hhead
  exact absurd rfl (hclose symbol h (symbol, looser) hmem)

/-- An operator ends every tighter level. -/
theorem stops_operator {symbol : String} (rest : List Token)
    (hmem : (symbol, looser) ∈ continuing) (hrank : level.rank < looser.rank) :
    Stops level (.sign symbol :: rest) := by
  have hsingle : ∀ entry ∈ continuing, ∀ other ∈ continuing, entry.1 = other.1 →
      entry.2 = other.2 := by
    decide
  intro found other hhead hother
  cases hhead
  obtain rfl : looser = other := hsingle _ hmem _ hother rfl
  exact hrank

/-- A sign of the level itself does not follow. -/
theorem Stops.notMem (h : Stops level ts) (hsymbols : ∀ s ∈ symbols, (s, level) ∈ continuing) :
    ∀ symbol, ts.head? = some (.sign symbol) → symbol ∉ symbols :=
  fun symbol hhead hmem => Nat.lt_irrefl _ (h symbol level hhead (hsymbols symbol hmem))

theorem chain_of_notMem {left : Tree}
    (h : ∀ symbol, ts.head? = some (.sign symbol) → symbol ∉ symbols) :
    chain symbols operand left ts = some (left, ts) := by
  rw [chain.eq_def]
  split
  · next symbol rest => rw [if_neg (h symbol rfl)]
  · rfl

theorem chain_sign {left right : Tree} {symbol : String} {rest tail : List Token}
    (hsymbol : symbol ∈ symbols) (h : operand rest = some (right, tail))
    (hlength : tail.length ≤ rest.length) :
    chain symbols operand left (.sign symbol :: rest) =
      chain symbols operand (.binary symbol left right) tail := by
  rw [chain.eq_def]
  simp only [hsymbol, if_true, h, hlength]

theorem chained_of_notMem (hoperand : operand ts = some (tree, rest))
    (h : ∀ symbol, rest.head? = some (.sign symbol) → symbol ∉ symbols) :
    chained symbols operand ts = some (tree, rest) := by
  rw [chained, hoperand]
  exact chain_of_notMem h

theorem unchained_of_notMem (hoperand : operand ts = some (tree, rest))
    (h : ∀ symbol, rest.head? = some (.sign symbol) → symbol ∉ symbols) :
    unchained symbols operand ts = some (tree, rest) := by
  rw [unchained, hoperand]
  split
  · next heq =>
    cases heq
    rw [if_neg (h _ rfl)]
  · rfl

variable {inner : Parser}

theorem choice_of_ne {test : Parser} (htest : test ts = some (tree, rest))
    (h : ∀ symbol, rest.head? = some (.sign symbol) → symbol ∉ ["?"]) :
    choice inner test ts = some (tree, rest) := by
  rw [choice, htest]
  split
  · next heq =>
    cases heq
    rw [if_neg (by simpa using h _ rfl)]
  · rfl

/-- What is read in the next tighter layer is read in a layer that it does not continue. -/
theorem layer_of_tighter (h : layer inner level.tighter ts = some (tree, rest))
    (hstops : Stops level rest) : layer inner level ts = some (tree, rest) := by
  cases level with
  | multiplicative | additive | equality | conjunction | disjunction =>
    exact chained_of_notMem h (hstops.notMem (by decide))
  | relational => exact unchained_of_notMem h (hstops.notMem (by decide))
  | conditional => exact choice_of_ne h (hstops.notMem (by decide))
  | _ => exact h

/-- What is read in one layer is read in every looser one that it does not continue. -/
theorem layer_of_rank_le {tight : Precedence} (hrank : tight.rank ≤ level.rank)
    (h : layer inner tight ts = some (tree, rest)) (hstops : Stops level rest) :
    layer inner level ts = some (tree, rest) := by
  induction hgap : level.rank - tight.rank generalizing level with
  | zero =>
    obtain rfl : tight = level := Precedence.rank_inj (by omega)
    exact h
  | succ gap ih =>
    have htighter := Precedence.rank_tighter level
    refine layer_of_tighter (ih (by omega) (hstops.mono (by omega)) (by omega)) hstops

end RobotBlocks.Grammar
