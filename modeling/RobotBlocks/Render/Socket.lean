import RobotBlocks.Expr
import RobotBlocks.Render.Basic
import RobotBlocks.Text.Lines

/-!
# What stands in sockets and slots

To render a block is to render what stands in its sockets and slots and to put that together. The
functions here and in the modules that build on this one describe a single block; for the blocks inside
it they ask a `Renderer`.

An empty socket, or one with a disabled block, gets a placeholder that fits its check. In a class, a
value that is wider than its socket is converted.
-/

set_option autoImplicit false

namespace RobotBlocks

structure Renderer where
  setting : Setting
  value : Block → Render Expr
  statement : Block → Render String

/-- The mark around the texts of a target. -/
def Target.mark : Target → Char
  | .javaScript => '\''
  | .java => '"'

namespace Renderer

def textLiteral (r : Renderer) (content : String) : Expr := .text r.setting.target.mark content

/-- What stands in a socket that has no value. -/
def placeholder (r : Renderer) (block : Block) (socket : String) : Expr :=
  match (block.shape.socket? socket).map Socket.check, r.setting.target with
  | some (.one "Boolean"), _ => .name "false"
  | some (.one "Number"), _ => .number "0"
  | some (.one "String"), _ => r.textLiteral ""
  | some (.one "Array"), .javaScript => .list []
  | _, _ => .name "null"

/-- The expression of a child, converted if the type that the socket expects is narrower. -/
def coerce (r : Renderer) (block : Block) (socket : String) (child : Block) (expr : Expr) :
    Render Expr := do
  let types := (← get).types
  match (← StaticType.ofSocket r.setting.workspace types block socket).bind
      NumericType.ofLabel? with
  | none => return expr
  | some expected =>
    if child.kind = .mathNumber then return .literalFor expected (← child.literal) expr
    else
      match (← StaticType.ofBlock r.setting.workspace types child).bind NumericType.ofLabel? with
      | some found => return if expected.rank < found.rank then .cast expected.label expr else expr
      | none => return expr

/-- Records that a value does not fit its socket. -/
def checkSocket (block : Block) (socket : String) (found : Check) : Render Unit :=
  match block.shape.socket? socket with
  | some expected =>
    if expected.check.accepts found then pure ()
    else Render.record (.checkFailed block.id socket expected.check found)
  | none => pure ()

/-- The value in a socket, or what to write instead of a missing one. -/
def operandOr (r : Renderer) (block : Block) (socket : String) (fallback : Expr) : Render Expr :=
  match block.values.get? socket with
  | none => pure fallback
  | some id => do
    let child ← r.setting.workspace.block id
    if child.disabled then return fallback
    else
      match child.shape.outputCheck? with
      | none => throw (.statementAsValue child.id child.typeName socket block.id)
      | some found =>
        checkSocket block socket found
        let expr ← r.value child
        match r.setting.target with
        | .java => r.coerce block socket child expr
        | .javaScript => return expr

def operand (r : Renderer) (block : Block) (socket : String) : Render Expr :=
  r.operandOr block socket (r.placeholder block socket)

/-- The text of the value in a socket, for a place that allows a level. -/
def operandText (r : Renderer) (block : Block) (socket : String) (place : Precedence) :
    Render String := do
  return (← r.operand block socket).printAt place

def operands (r : Renderer) (block : Block) (stem : String) (count : Nat) : Render (List Expr) :=
  (List.range count).mapM (fun index => r.operand block (stem ++ toString index))

/-- The comment that goes before a statement. A call without a comment of its own has that of the
method; comment blocks and procedures take care of theirs. -/
def commentOf (block : Block) : Option String :=
  match block.kind with
  | .comment | .procedureDef _ => none
  | _ =>
    (block.comment.or (block.signature?.map CallSignature.comment)).filter
      (fun comment => !Text.allBlank comment)

def link (r : Renderer) (block : Block) : Render String :=
  if block.disabled then do
    Render.record (.disabledSkipped block.id)
    return ""
  else do
    let comment := ((commentOf block).map Text.lineComment).getD ""
    return comment ++ (← r.statement block)

/-- The text of the chain of statements that starts with a block. -/
def chain (r : Renderer) (start : String) : Render String := do
  let (blocks, fault) := r.setting.workspace.chain start
  let texts ← blocks.mapM r.link
  match fault with
  | some fault => throw fault
  | none => return String.join texts

def slot (r : Renderer) (block : Block) (name : String) : Render String :=
  match block.statements.get? name with
  | some start => do return Text.indent (← r.chain start)
  | none => pure ""

end Renderer

end RobotBlocks
