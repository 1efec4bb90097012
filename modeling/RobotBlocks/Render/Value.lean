import RobotBlocks.Render.Socket

/-!
# Values of both targets

The expressions of arithmetic, logic, texts, lists, variables and procedure calls. Where the targets
differ it is in a function name or in how texts are joined.
-/

set_option autoImplicit false

namespace RobotBlocks

namespace Renderer

def callWith (r : Renderer) (block : Block) (function : String) (sockets : List String) :
    Render Expr := do
  return .call function (← sockets.mapM (r.operand block))

def binary (r : Renderer) (block : Block) (operator : Operator) : Render Expr := do
  let left ← r.operand block "A"
  let right ← r.operand block "B"
  return .binary operator left right

def isIntegral (r : Renderer) (block : Block) (socket : String) : Render Bool := do
  let type ← StaticType.ofChild r.setting.workspace (← get).types block socket
  return ((type.bind NumericType.ofLabel?).map NumericType.isIntegral).getD false

/-- Whether a division of a class would drop the fraction. -/
def dropsFraction (r : Renderer) (block : Block) : Render Bool :=
  match r.setting.target with
  | .javaScript => pure false
  | .java => do
    if ← r.isIntegral block "A" then r.isIntegral block "B" else return false

/-- The quotient of the values of a block, with its fraction. -/
def quotient (r : Renderer) (block : Block) : Render Expr := do
  if ← r.dropsFraction block then
    let dividend ← r.operand block "A"
    let divisor ← r.operand block "B"
    return .binary .divide (.cast "double" dividend) divisor
  else r.binary block .divide

def arithmetic (r : Renderer) (block : Block) : Render Expr := do
  match ← block.requiredField "OP" with
  | "ADD" => r.binary block .plus
  | "MINUS" => r.binary block .minus
  | "MULTIPLY" => r.binary block .times
  | "DIVIDE" => r.quotient block
  | "POWER" => r.callWith block "Math.pow" ["A", "B"]
  | other => throw (block.unexpected "OP" other)

/-- The decimal logarithm, which scripts have to compute. -/
def decimalLogarithm (r : Renderer) (block : Block) : Render Expr :=
  match r.setting.target with
  | .javaScript => do
    let operand ← r.operand block "NUM"
    return .binary .divide (.call "Math.log" [operand]) (.call "Math.log" [.number "10"])
  | .java => r.callWith block "Math.log10" ["NUM"]

def single (r : Renderer) (block : Block) : Render Expr := do
  match ← block.requiredField "OP" with
  | "NEG" => return .negate (← r.operand block "NUM")
  | "POW10" => return .call "Math.pow" [.number "10", ← r.operand block "NUM"]
  | "ROOT" => r.callWith block "Math.sqrt" ["NUM"]
  | "ABS" => r.callWith block "Math.abs" ["NUM"]
  | "LN" => r.callWith block "Math.log" ["NUM"]
  | "LOG10" => r.decimalLogarithm block
  | "EXP" => r.callWith block "Math.exp" ["NUM"]
  | other => throw (block.unexpected "OP" other)

def comparison (block : Block) : Except Fault Operator := do
  match ← block.requiredField "OP" with
  | "EQ" => return .equal
  | "NEQ" => return .notEqual
  | "LT" => return .less
  | "LTE" => return .lessOrEqual
  | "GT" => return .greater
  | "GTE" => return .greaterOrEqual
  | other => throw (block.unexpected "OP" other)

def connective (block : Block) : Except Fault Operator := do
  match ← block.requiredField "OP" with
  | "AND" => return .and
  | "OR" => return .or
  | other => throw (block.unexpected "OP" other)

def truthValue (block : Block) : Except Fault Expr := do
  match ← block.requiredField "BOOL" with
  | "TRUE" => return .name "true"
  | "FALSE" => return .name "false"
  | other => throw (block.unexpected "BOOL" other)

def ternary (r : Renderer) (block : Block) : Render Expr := do
  let test ← r.operand block "IF"
  let yes ← r.operand block "THEN"
  let no ← r.operand block "ELSE"
  return .conditional test yes no

def items (r : Renderer) (block : Block) : Render (List Expr) :=
  r.operands block "ADD" block.itemCount

/-- Whether the first item of a block is a text block. -/
def firstIsText (r : Renderer) (block : Block) : Bool :=
  ((block.values.get? "ADD0").bind r.setting.workspace.get?).any
    (fun child => child.kind = .text && !child.disabled)

/-- The expression that joins items as a text in a script. -/
def joinedInScript : List Expr → Expr
  | [item] => .call "String" [item]
  | [first, second] => .binary .plus (.call "String" [first]) (.call "String" [second])
  | items => .method (.list items) "join" [.text '\'' ""]

/-- The expression that joins items as a text in a class: a sum that starts with a text. -/
def joinedInClass (startsWithText : Bool) : List Expr → Expr
  | [item] => .call "String.valueOf" [item]
  | items =>
    match items, startsWithText with
    | first :: rest, true => .chain .plus first rest
    | items, _ => .chain .plus (.text '"' "") items

def joined (r : Renderer) (block : Block) : Render Expr :=
  if block.itemCount = 0 then pure (r.textLiteral "")
  else do
    let items ← r.items block
    match r.setting.target with
    | .javaScript => return joinedInScript items
    | .java => return joinedInClass (r.firstIsText block) items

def listOf (r : Renderer) (block : Block) : Render Expr := do
  let items ← r.items block
  match r.setting.target with
  | .javaScript => return .list items
  | .java =>
    Render.importKnown "JavaUtil"
    return .call "JavaUtil.createListWith" items

def procedureCall (r : Renderer) (block : Block) : Render Expr := do
  let name ← block.procedureName
  let identifier ← Render.procedureIdentifier name
  let arguments ← r.operands block "ARG" block.procedureArguments.length
  return .call identifier arguments

def angle (r : Renderer) (block : Block) : Render Expr := do
  let y ← r.operand block "Y"
  let x ← r.operand block "X"
  return .binary .times (.binary .divide (.call "Math.atan2" [y, x]) (.path "Math.PI"))
    (.number "180")

def sharedValue (r : Renderer) (block : Block) : Render Expr :=
  match block.kind with
  | .mathNumber => do return .number (Numeral.literal r.setting.target (← block.literal))
  | .mathArithmetic => r.arithmetic block
  | .mathSingle => r.single block
  | .logicBoolean => liftM (truthValue block)
  | .logicCompare => do r.binary block (← comparison block)
  | .logicOperation => do r.binary block (← connective block)
  | .logicNegate => do return .not (← r.operand block "BOOL")
  | .logicNull => pure (.name "null")
  | .logicTernary => r.ternary block
  | .text => pure (r.textLiteral ((block.field? "TEXT").getD ""))
  | .textJoin => r.joined block
  | .listsCreateWith => r.listOf block
  | .variablesGet => do return .name (← Render.variableIdentifier (← block.requiredField "VAR"))
  | .procedureCall true => r.procedureCall block
  | _ => throw (.noValueText block.id block.typeName)

end Renderer

end RobotBlocks
