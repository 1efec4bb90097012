import RobotBlocks.Render.Value

/-!
# Statements of both targets

Assignments, branches, loops and calls of procedures. Every text of a statement is empty or ends with
a line feed.
-/

set_option autoImplicit false

namespace RobotBlocks

namespace Renderer

def braced (head body : String) : String := head ++ " \x7b\n" ++ body ++ "\x7d\n"

def expressionStatement (expr : Expr) : String := expr.print ++ ";\n"

def callStatement (r : Renderer) (block : Block) (function : String) (sockets : List String) :
    Render String := do
  return expressionStatement (← r.callWith block function sockets)

def assignment (r : Renderer) (block : Block) : Render String := do
  let name ← Render.variableIdentifier (← block.requiredField "VAR")
  let value ← r.operandText block "VALUE" .assignment
  return name ++ " = " ++ value ++ ";\n"

/-- How many branches with a condition a block has: as many as it has sockets with consecutive numbers
from zero on. -/
def branchCount (shape : Shape) : Nat :=
  ((List.range shape.sockets.length).takeWhile
    (fun index => (shape.socket? ("IF" ++ toString index)).isSome)).length

def branch (r : Renderer) (block : Block) (index : Nat) : Render String := do
  let condition ← r.operandText block ("IF" ++ toString index) .anything
  let body ← r.slot block ("DO" ++ toString index)
  return (if index = 0 then "if" else "\x7d else if") ++ " (" ++ condition ++ ") \x7b\n" ++ body

/-- The branch without a condition, if there is one. -/
def lastBranch (r : Renderer) (block : Block) : Render String := do
  if block.shape.slots.contains "ELSE" then return "\x7d else \x7b\n" ++ (← r.slot block "ELSE")
  else return ""

def branches (r : Renderer) (block : Block) : Render String := do
  let texts ← (List.range (branchCount block.shape)).mapM (r.branch block)
  let last ← r.lastBranch block
  return String.join texts ++ last ++ "\x7d\n"

def loopCondition (r : Renderer) (block : Block) : Render Expr :=
  match (block.field? "MODE").getD "WHILE" with
  | "WHILE" => r.operand block "BOOL"
  | "UNTIL" => do return .not (← r.operand block "BOOL")
  | other => throw (block.unexpected "MODE" other)

def conditionLoop (r : Renderer) (block : Block) : Render String := do
  let condition ← r.loopCondition block
  let body ← r.slot block "DO"
  return braced ("while (" ++ condition.printAt .anything ++ ")") body

/-- The word that declares a counter. -/
def counterKeyword : Target → String
  | .javaScript => "var"
  | .java => "int"

def countedLoop (r : Renderer) (block : Block) : Render String := do
  let times ← r.operandText block "TIMES" Precedence.relational.tighter
  let counter ← Render.distinctName "count"
  let body ← r.slot block "DO"
  return braced ("for (" ++ counterKeyword r.setting.target ++ " " ++ counter ++ " = 0; " ++ counter ++
    " < " ++ times ++ "; " ++ counter ++ "++)") body

/-- A jump out of a loop or to its next round. -/
def jump (block : Block) : Except Fault String := do
  match ← block.requiredField "FLOW" with
  | "BREAK" => return "break;\n"
  | "CONTINUE" => return "continue;\n"
  | other => throw (block.unexpected "FLOW" other)

def returnStatement (r : Renderer) (block : Block) : Render String := do
  return Text.indent ("return " ++ (← r.operandText block "RETURN" .anything) ++ ";\n")

def sharedStatement (r : Renderer) (block : Block) : Render String :=
  match block.kind with
  | .variablesSet => r.assignment block
  | .controlsIf => r.branches block
  | .controlsWhileUntil => r.conditionLoop block
  | .controlsRepeat => r.countedLoop block
  | .controlsFlow => liftM (jump block)
  | .procedureCall false => do return expressionStatement (← r.procedureCall block)
  | _ => throw (.noStatementText block.id block.typeName)

end Renderer

end RobotBlocks
