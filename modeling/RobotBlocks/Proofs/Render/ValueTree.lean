import RobotBlocks.Proofs.Grammar.Parse
import RobotBlocks.Render.Socket

/-!
# Trees of values

The blocks for numbers, truth values, texts, lists and variables form trees. A `ValueTree` says at
each node what the block there does (`ValueHead`), and for each of its sockets the tree of the block
in it; a socket that is empty or holds a disabled block has none.

`denote` is the expression that such a tree stands for, as a tree of the grammar of the targets: the
operation of the block applied to its operands, with the word or number that an empty socket stands
for, with a conversion where a socket takes a narrower type than the operand has, and with a
conversion to `double` before a division of whole numbers. It knows nothing of texts and parentheses.

`Holds w tree block` says that a block of a workspace is the root of a tree.
-/

set_option autoImplicit false

namespace RobotBlocks

open Grammar (Tree)

/-! ## What a block does -/

inductive Arithmetic where
  | add
  | subtract
  | multiply
  | divide
  | power
  deriving DecidableEq, Repr

def Arithmetic.ofField? : String → Option Arithmetic
  | "ADD" => some add
  | "MINUS" => some subtract
  | "MULTIPLY" => some multiply
  | "DIVIDE" => some divide
  | "POWER" => some power
  | _ => none

inductive SingleOperation where
  | negative
  | powerOfTen
  | root
  | absolute
  | naturalLogarithm
  | decimalLogarithm
  | exponential
  deriving DecidableEq, Repr

def SingleOperation.ofField? : String → Option SingleOperation
  | "NEG" => some negative
  | "POW10" => some powerOfTen
  | "ROOT" => some root
  | "ABS" => some absolute
  | "LN" => some naturalLogarithm
  | "LOG10" => some decimalLogarithm
  | "EXP" => some exponential
  | _ => none

/-- The sign of the comparison that a field names. -/
def comparisonSign? : String → Option String
  | "EQ" => some "=="
  | "NEQ" => some "!="
  | "LT" => some "<"
  | "LTE" => some "<="
  | "GT" => some ">"
  | "GTE" => some ">="
  | _ => none

def connectiveSign? : String → Option String
  | "AND" => some "&&"
  | "OR" => some "||"
  | _ => none

def truthWord? : String → Option String
  | "TRUE" => some "true"
  | "FALSE" => some "false"
  | _ => none

/-- What a block does with the values in its sockets. -/
inductive ValueHead where
  | number (value : Binary64)
  | arithmetic (operation : Arithmetic)
  | single (operation : SingleOperation)
  | truth (word : String)
  | comparison (sign : String)
  | connective (sign : String)
  | negation
  | null
  | choice
  | text (content : String)
  | join
  | list
  | got (name : String)
  | angle
  | formatted
  | rounded
  | isNull
  | isNotNull
  deriving DecidableEq, Repr

/-- A number if it is finite. -/
def finite? (value : Binary64) : Option Binary64 := if value.isFinite then some value else none

/-- What a block does, if it is one of those that form trees, with a finite number and with choices
that exist. -/
def ValueHead.of? (block : Block) : Option ValueHead :=
  match block.kind with
  | .mathNumber => (block.literal.toOption.bind finite?).map number
  | .mathArithmetic => ((block.field? "OP").bind Arithmetic.ofField?).map arithmetic
  | .mathSingle => ((block.field? "OP").bind SingleOperation.ofField?).map single
  | .logicBoolean => ((block.field? "BOOL").bind truthWord?).map truth
  | .logicCompare => ((block.field? "OP").bind comparisonSign?).map comparison
  | .logicOperation => ((block.field? "OP").bind connectiveSign?).map connective
  | .logicNegate => some negation
  | .logicNull => some null
  | .logicTernary => some choice
  | .text => some (text ((block.field? "TEXT").getD ""))
  | .textJoin => some join
  | .listsCreateWith => some list
  | .variablesGet => (block.field? "VAR").map got
  | .misc .atan2 => some angle
  | .misc .formatNumber => some formatted
  | .misc .roundDecimal => some rounded
  | .misc .isNull => some isNull
  | .misc .isNotNull => some isNotNull
  | _ => none

/-! ## Sockets -/

/-- A socket of a block: what it stands for if it is empty, and the numeric type that it takes, if
only values of that type or of a narrower one fit without a conversion. -/
structure Slot where
  name : String
  missing : Tree
  expected : Option NumericType := none

namespace Slot

def ofNumber (name : String) (expected : Option NumericType := none) : Slot :=
  { name, missing := .number "0", expected }

def ofTruth (name : String) : Slot := { name, missing := .name "false" }

def ofAny (name : String) : Slot := { name, missing := .name "null" }

end Slot

/-- The sockets of a block; blocks with items have as many as there are items. -/
def ValueHead.slots (items : Nat) : ValueHead → List Slot
  | number _ | truth _ | null | text _ | got _ => []
  | arithmetic _ => [.ofNumber "A", .ofNumber "B"]
  | single _ => [.ofNumber "NUM"]
  | comparison _ => [.ofAny "A", .ofAny "B"]
  | connective _ => [.ofTruth "A", .ofTruth "B"]
  | negation => [.ofTruth "BOOL"]
  | choice => [.ofTruth "IF", .ofAny "THEN", .ofAny "ELSE"]
  | join | list => (List.range items).map fun index => .ofAny ("ADD" ++ toString index)
  | angle => [.ofNumber "Y" (some .double), .ofNumber "X" (some .double)]
  | formatted | rounded =>
    [.ofNumber "NUMBER" (some .double), .ofNumber "PRECISION" (some .int)]
  | isNull | isNotNull => [.ofAny "VALUE"]

/-- What blocks do, down from one of them. -/
inductive ValueTree where
  | node (head : ValueHead) (operands : List (Option ValueTree))

/-- What the text of an expression depends on besides the blocks: the target, the types of the
variables and their identifiers. -/
structure Scope where
  target : Target
  types : TypeTable
  identifier : String → String

/-! ## Static types -/

/-- The static type of a block, given those of its operands. -/
def ValueHead.type? (table : TypeTable) : ValueHead → List (Option String) → Option String
  | number value, _ => some (if Numeral.fitsInt value then "int" else "double")
  | arithmetic .divide, _ | arithmetic .power, _ => some "double"
  | arithmetic _, [left, right] =>
    some (((StaticType.widest? (left.bind NumericType.ofLabel?)
      (right.bind NumericType.ofLabel?)).map NumericType.label).getD "double")
  | single .negative, [operand] | single .absolute, [operand] => some (operand.getD "double")
  | single _, _ => some "double"
  | choice, [_, some yes, some no] => some (StaticType.merge yes no)
  | choice, [_, yes, no] => yes.or no
  | got name, _ => table.variableTypes.get? name
  | truth _, _ | comparison _, _ | connective _, _ | negation, _ | isNull, _ | isNotNull, _ =>
    some "boolean"
  | text _, _ | join, _ | formatted, _ => some "String"
  | list, _ => some "List"
  | angle, _ | rounded, _ => some "double"
  | _, _ => none

mutual

/-- The static type of the value of a tree. -/
def ValueTree.type? (table : TypeTable) : ValueTree → Option String
  | .node head operands => head.type? table (ValueTree.types table operands)

/-- The static types of operands; nothing is known of a missing one. -/
def ValueTree.types (table : TypeTable) : List (Option ValueTree) → List (Option String)
  | [] => []
  | none :: rest => none :: ValueTree.types table rest
  | some tree :: rest => tree.type? table :: ValueTree.types table rest

end

/-- Whether a static type is a type of whole numbers. -/
def isIntegralType (type : Option String) : Bool :=
  ((type.bind NumericType.ofLabel?).map NumericType.isIntegral).getD false

/-! ## The expression of a tree -/

/-- The tree of a number literal; a minus in front makes it a negative number. -/
def literalTree (literal : String) : Tree :=
  if Expr.startsWithMinus literal then .negate (.number (String.ofList literal.toList.tail))
  else .number literal

/-- A call of a member of something that has a name. -/
def memberCall (owner function : String) (arguments : List Tree) : Tree :=
  .call (.member (.name owner) function) arguments

def mathCall : String → List Tree → Tree := memberCall "Math"

/-- Items joined as a text: by a function in a script, by a sum that begins with a text in a
class. -/
def joinedTree (startsWithText : Bool) : Target → List Tree → Tree
  | _, [] => .text ""
  | .javaScript, [item] => .call (.name "String") [item]
  | .javaScript, [first, second] =>
    .binary "+" (.call (.name "String") [first]) (.call (.name "String") [second])
  | .javaScript, items => .call (.member (.list items) "join") [.text ""]
  | .java, [item] => memberCall "String" "valueOf" [item]
  | .java, first :: rest =>
    if startsWithText then rest.foldl (.binary "+") first
    else (first :: rest).foldl (.binary "+") (.text "")

/-- An operation of arithmetic. A class would drop the fraction of a quotient of whole numbers, so
the dividend is converted there. -/
def arithmeticTree (target : Target) (types : List (Option String)) (left right : Tree) :
    Arithmetic → Tree
  | .add => .binary "+" left right
  | .subtract => .binary "-" left right
  | .multiply => .binary "*" left right
  | .divide =>
    if target = .java ∧ types.all isIntegralType then .binary "/" (.cast "double" left) right
    else .binary "/" left right
  | .power => mathCall "pow" [left, right]

/-- An operation on one number. Scripts have no decimal logarithm. -/
def singleTree (target : Target) (operand : Tree) : SingleOperation → Tree
  | .negative => .negate operand
  | .powerOfTen => mathCall "pow" [.number "10", operand]
  | .root => mathCall "sqrt" [operand]
  | .absolute => mathCall "abs" [operand]
  | .naturalLogarithm => mathCall "log" [operand]
  | .decimalLogarithm =>
    match target with
    | .javaScript => .binary "/" (mathCall "log" [operand]) (mathCall "log" [.number "10"])
    | .java => mathCall "log10" [operand]
  | .exponential => mathCall "exp" [operand]

/-- The expression of a block, given its operands with their types and whether the first one is a
text block. -/
def ValueHead.tree (scope : Scope) (types : List (Option String)) (startsWithText : Bool) :
    ValueHead → List Tree → Tree
  | number value, _ => literalTree (Numeral.literal scope.target value)
  | arithmetic operation, [left, right] => arithmeticTree scope.target types left right operation
  | single operation, [operand] => singleTree scope.target operand operation
  | truth word, _ => .name word
  | comparison sign, [left, right] => .binary sign left right
  | connective sign, [left, right] => .binary sign left right
  | negation, [operand] => .not operand
  | choice, [test, yes, no] => .conditional test yes no
  | text content, _ => .text content
  | join, items => joinedTree startsWithText scope.target items
  | list, items =>
    match scope.target with
    | .javaScript => .list items
    | .java => memberCall "JavaUtil" "createListWith" items
  | got name, _ => .name (scope.identifier name)
  | angle, [y, x] =>
    .binary "*" (.binary "/" (mathCall "atan2" [y, x]) (.member (.name "Math") "PI"))
      (.number "180")
  | formatted, operands =>
    match scope.target with
    | .javaScript => memberCall "misc" "formatNumber" operands
    | .java => memberCall "JavaUtil" "formatNumber" operands
  | rounded, operands =>
    match scope.target with
    | .javaScript => memberCall "misc" "roundDecimal" operands
    | .java =>
      memberCall "Double" "parseDouble" [memberCall "JavaUtil" "formatNumber" operands]
  | isNull, [operand] =>
    match scope.target with
    | .javaScript => memberCall "misc" "isNull" [operand]
    | .java => .binary "==" operand (.name "null")
  | isNotNull, [operand] =>
    match scope.target with
    | .javaScript => memberCall "misc" "isNotNull" [operand]
    | .java => .binary "!=" operand (.name "null")
  | _, _ => .name "null"

/-- An operand with the conversion that its socket needs: in a class, to the type that the socket
takes if the operand has a wider one. -/
def converted (target : Target) (expected : Option NumericType) (type : Option String)
    (operand : Tree) : Tree :=
  match target, expected, type.bind NumericType.ofLabel? with
  | .java, some expected, some found =>
    if expected.rank < found.rank then .cast expected.label operand else operand
  | _, _, _ => operand

/-- Whether the first operand is a text block. -/
def startsWithText : List (Option ValueTree) → Bool
  | some (.node (.text _) _) :: _ => true
  | _ => false

mutual

/-- The expression that a tree stands for. -/
def ValueTree.denote (scope : Scope) : ValueTree → Tree
  | .node head operands =>
    head.tree scope (ValueTree.types scope.types operands) (startsWithText operands)
      (ValueTree.denoteAll scope (head.slots operands.length) operands)

/-- The expressions of the operands in sockets. -/
def ValueTree.denoteAll (scope : Scope) : List Slot → List (Option ValueTree) → List Tree
  | slot :: slots, none :: rest => slot.missing :: ValueTree.denoteAll scope slots rest
  | slot :: slots, some tree :: rest =>
    converted scope.target slot.expected (tree.type? scope.types) (tree.denote scope) ::
      ValueTree.denoteAll scope slots rest
  | _, _ => []

end

/-! ## Trees in a workspace -/

/-- A block whose shape is the one of its kind and its mutation, where a mutation can only say how
many items there are. -/
structure Block.IsPlain (block : Block) : Prop where
  shape : block.applyMutation = block
  mutation : ∀ mutation, block.mutation = some mutation → ∃ count, mutation = .items count

mutual

/-- A block of a workspace is the root of a tree. -/
def ValueTree.Holds (w : Workspace) : ValueTree → Block → Prop
  | .node head operands, block =>
    block.IsPlain ∧ ValueHead.of? block = some head ∧
      ValueTree.HoldAll w operands block (head.slots block.itemCount)

def ValueTree.HoldAll (w : Workspace) : List (Option ValueTree) → Block → List Slot → Prop
  | [], _, slots => slots = []
  | operand :: operands, block, slots =>
    ∃ slot rest, slots = slot :: rest ∧ ValueTree.HoldsAt w operand block slot.name ∧
      ValueTree.HoldAll w operands block rest

/-- A socket of a block holds a tree, or nothing that counts. -/
def ValueTree.HoldsAt (w : Workspace) : Option ValueTree → Block → String → Prop
  | none, block, socket =>
    ∀ id, block.values.get? socket = some id → ∃ child, w.get? id = some child ∧ child.disabled = true
  | some tree, block, socket =>
    ∃ id child, block.values.get? socket = some id ∧ w.get? id = some child ∧
      child.disabled = false ∧ tree.Holds w child

end

end RobotBlocks
