import RobotBlocks.Program.Load
import RobotBlocks.Render.Compiled
import RobotBlocks.Render.Script

/-!
# Rendering programs

`Setting.renderer` renders blocks with the blocks inside them. Blocks stand inside one another at most
as deep as there are blocks, so that number bounds the recursion; a program that was loaded never
reaches the bound.
-/

set_option autoImplicit false

namespace RobotBlocks

namespace Renderer

def renderValue (r : Renderer) (block : Block) : Render Expr :=
  match r.setting.target with
  | .javaScript => Script.value r block
  | .java => Compiled.value r block

/-- The text of a block that has to be a statement. -/
def renderStatement (r : Renderer) (block : Block) : Render String :=
  if block.shape.isStatement then
    match r.setting.target with
    | .javaScript => Script.statement r block
    | .java => Compiled.statement r block
  else throw (.valueAsStatement block.id block.typeName)

def exhausted (setting : Setting) : Renderer where
  setting
  value block := throw (.nestedTooDeep block.id)
  statement block := throw (.nestedTooDeep block.id)

/-- The renderer that renders a block with the help of another one for the blocks inside it. -/
def around (r : Renderer) : Renderer where
  setting := r.setting
  value := r.renderValue
  statement := r.renderStatement

end Renderer

namespace Setting

/-- The renderer for blocks that stand inside one another at most `depth` deep. -/
def rendererWithin (setting : Setting) : (depth : Nat) → Renderer
  | 0 => Renderer.exhausted setting
  | depth + 1 => (setting.rendererWithin depth).around

@[simp] theorem setting_rendererWithin (setting : Setting) (depth : Nat) :
    (setting.rendererWithin depth).setting = setting := by
  induction depth with
  | zero => rfl
  | succ depth ih => exact ih

def renderer (setting : Setting) : Renderer := setting.rendererWithin setting.workspace.size

@[simp] theorem setting_renderer (setting : Setting) : setting.renderer.setting = setting :=
  setting_rendererWithin setting _

def program (setting : Setting) (registration : Registration) : Render String := do
  Render.record (.generating setting.target setting.workspace.size)
  match setting.target with
  | .javaScript => Script.program setting.renderer
  | .java =>
    Render.inferTypes setting.workspace
    Compiled.program setting.renderer registration

/-- Does a step of a run from a draft on. -/
def step {α : Type} (action : Render α) (draft : Draft) : Except Fault α × Draft :=
  action.run.run draft

end Setting

namespace Program

/-- Renders a program for a target. The events are those up to its end or its fault. -/
def render (program : Program) (target : Target) (hardware : Hardware) (options : ClassOptions) :
    Except Fault String × List Event :=
  let setting : Setting := { workspace := program.workspace, hardware, target, options }
  let (result, draft) := Setting.step (setting.program program.registration) setting.firstDraft
  (result, draft.events.reverse)

def renderSource (source : String) (target : Target) (hardware : Hardware)
    (options : ClassOptions) : Except Fault String × List Event :=
  match read source with
  | (.error fault, events) => (.error fault, events)
  | (.ok program, events) =>
    let (result, more) := program.render target hardware options
    (result, events ++ more)

end Program

end RobotBlocks
