import RobotBlocks.Proofs.Render.Parallel
import RobotBlocks.Render.Generate

/-!
# What blocks say, and what stands in them

The answers that a block gives about itself are never about links (`Own`), so a fault about links
can only come out of a socket or a slot. `Renderer.ParallelAt` says that two renderers agree about the
sockets and slots of a block.
-/

set_option autoImplicit false

namespace RobotBlocks

/-! ## What blocks say about themselves -/

namespace Own

variable {α β : Type}

theorem ok (a : α) : Own (.ok a : Except Fault α) := nofun

theorem error {fault : Fault} (h : fault.isOwn = true) : Own (.error fault : Except Fault α) := by
  rintro _ ⟨⟩
  exact h

theorem bind {answer : Except Fault α} {next : α → Except Fault β} (h : Own answer)
    (hnext : ∀ a, Own (next a)) : Own (answer >>= next) := by
  cases answer with
  | error fault => exact error (h fault rfl)
  | ok a => exact hnext a

end Own

section

variable (block : Block)

namespace Block

theorem own_requiredField (name : String) : Own (block.requiredField name) := by
  unfold requiredField
  split
  · exact .ok _
  · exact .error rfl

theorem own_procedureName : Own block.procedureName := by
  unfold procedureName
  split
  · split
    · exact block.own_requiredField _
    · exact .ok _
  · exact block.own_requiredField _

theorem own_signature : Own block.signature := by
  unfold signature
  split
  · exact .ok _
  · exact .error rfl

theorem own_literal : Own block.literal := by
  refine (block.own_requiredField _).bind fun text => ?_
  split
  · exact .ok _
  · exact .error rfl

theorem own_choice (field : String) (choices : List String) : Own (block.choice field choices) := by
  refine (block.own_requiredField _).bind fun value => ?_
  split
  · exact .ok _
  · exact .error rfl

end Block

theorem ColorProperty.own_of : Own (ColorProperty.of block) := by
  refine (block.own_requiredField _).bind fun prop => ?_
  split
  · exact .ok _
  · exact .error rfl

theorem GamepadProperty.own_of (typing : Typing) : Own (GamepadProperty.of block typing) := by
  refine (block.own_requiredField _).bind fun prop => ?_
  split
  · split
    · exact .ok _
    · exact .error rfl
  · exact .error rfl

theorem DeviceProperty.own_of (kind : DeviceKind) (setting : Bool) :
    Own (DeviceProperty.of block kind setting) := by
  refine (block.own_requiredField _).bind fun prop => ?_
  split
  · exact .ok _
  · exact .error rfl

namespace Renderer

theorem own_comparison : Own (comparison block) := by
  refine (block.own_requiredField _).bind fun op => ?_
  split
  all_goals first | exact .ok _ | exact .error rfl

theorem own_connective : Own (connective block) := by
  refine (block.own_requiredField _).bind fun op => ?_
  split
  all_goals first | exact .ok _ | exact .error rfl

theorem own_truthValue : Own (truthValue block) := by
  refine (block.own_requiredField _).bind fun value => ?_
  split
  all_goals first | exact .ok _ | exact .error rfl

theorem own_jump : Own (jump block) := by
  refine (block.own_requiredField _).bind fun flow => ?_
  split
  all_goals first | exact .ok _ | exact .error rfl

end Renderer

theorem Script.own_calledDevice : Own (calledDevice block) := by
  unfold calledDevice
  split
  · exact (block.own_requiredField _).bind fun _ => .ok _
  · exact .ok _

theorem Script.own_gamepadValue (typing : Typing) : Own (gamepadValue block typing) :=
  (GamepadProperty.own_of block typing).bind fun _ =>
    (block.own_choice _ _).bind fun _ => .ok _

theorem Compiled.own_gamepadValue (typing : Typing) : Own (gamepadValue block typing) :=
  (GamepadProperty.own_of block typing).bind fun _ =>
    (block.own_choice _ _).bind fun _ => .ok _

end

/-! ## Renderings in classes -/

namespace Setting

variable {setting : Setting} {depth : Nat} {block : Block} {before after : Draft}

/-- A value in a class comes from a renderer that goes less deep. -/
theorem exists_yields_value (hjava : setting.target = .java) {expr : Expr}
    (h : Yields ((setting.rendererWithin depth).value block) before expr after) :
    ∃ below, Yields (Compiled.value (setting.rendererWithin below) block) before expr after := by
  cases depth with
  | zero => exact absurd h yields_throw
  | succ depth =>
    change Yields ((setting.rendererWithin depth).renderValue block) before expr after at h
    unfold Renderer.renderValue at h
    rw [setting_rendererWithin, hjava] at h
    exact ⟨depth, h⟩

theorem exists_yields_statement (hjava : setting.target = .java) {text : String}
    (h : Yields ((setting.rendererWithin depth).statement block) before text after) :
    ∃ below, Yields (Compiled.statement (setting.rendererWithin below) block) before text after := by
  cases depth with
  | zero => exact absurd h yields_throw
  | succ depth =>
    change Yields ((setting.rendererWithin depth).renderStatement block) before text after at h
    unfold Renderer.renderStatement at h
    rw [setting_rendererWithin, hjava] at h
    split at h
    · exact ⟨depth, h⟩
    · exact absurd h yields_throw

end Setting

/-! ## Sockets and slots -/

namespace Renderer

variable {r : Renderer} {block : Block}

/-- The value of an enabled block in a socket. -/
def plugged (r : Renderer) (block : Block) (socket : String) (child : Block) : Render Expr :=
  match child.shape.outputCheck? with
  | none => throw (.statementAsValue child.id child.typeName socket block.id)
  | some found => do
    checkSocket block socket found
    let expr ← r.value child
    match r.setting.target with
    | .java => r.coerce block socket child expr
    | .javaScript => return expr

theorem sure_checkSocket (block : Block) (socket : String) (found : Check) :
    Sure (checkSocket block socket found) := by
  unfold checkSocket
  split
  · split
    · exact .pure _
    · exact .modify _
  · exact .pure _

variable {socket : String}

theorem operandOr_of_get?_eq_none (h : block.values.get? socket = none) (fallback : Expr) :
    r.operandOr block socket fallback = pure fallback := by
  unfold operandOr
  rw [h]

theorem operandOr_of_get?_eq_some {id : String} {child : Block}
    (hsocket : block.values.get? socket = some id)
    (hchild : r.setting.workspace.get? id = some child) (fallback : Expr) :
    r.operandOr block socket fallback =
      if child.disabled then pure fallback else r.plugged block socket child := by
  unfold operandOr Workspace.block
  rw [hsocket]
  dsimp only
  rw [hchild]
  rfl

theorem operandOr_of_dangling {id : String} (hsocket : block.values.get? socket = some id)
    (hchild : r.setting.workspace.get? id = none) (fallback : Expr) :
    r.operandOr block socket fallback = throw (.unknownBlock id) := by
  unfold operandOr Workspace.block
  rw [hsocket]
  dsimp only
  rw [hchild]
  rfl

/-- What two renderers of one workspace find in a socket: nothing, no block or an enabled one. -/
theorem operandOr_cases {r' : Renderer} {fallback : Expr} {P : Render Expr → Render Expr → Prop}
    (hworkspace : r'.setting.workspace = r.setting.workspace)
    (hempty : (∀ id child, block.values.get? socket = some id →
      r.setting.workspace.get? id = some child → child.disabled = true) →
      P (pure fallback) (pure fallback))
    (hdangling : ∀ id, block.values.get? socket = some id → r.setting.workspace.get? id = none →
      P (throw (.unknownBlock id)) (throw (.unknownBlock id)))
    (hplugged : ∀ id child, block.values.get? socket = some id →
      r.setting.workspace.get? id = some child → child.disabled = false →
      P (r.plugged block socket child) (r'.plugged block socket child)) :
    P (r.operandOr block socket fallback) (r'.operandOr block socket fallback) := by
  cases hsocket : block.values.get? socket with
  | none =>
    rw [operandOr_of_get?_eq_none hsocket, operandOr_of_get?_eq_none hsocket]
    exact hempty (by simp [hsocket])
  | some id =>
    cases hchild : r.setting.workspace.get? id with
    | none =>
      rw [operandOr_of_dangling hsocket hchild, operandOr_of_dangling hsocket (hworkspace ▸ hchild)]
      exact hdangling id hsocket hchild
    | some child =>
      rw [operandOr_of_get?_eq_some hsocket hchild,
        operandOr_of_get?_eq_some hsocket (hworkspace ▸ hchild)]
      cases hdisabled : child.disabled with
      | true =>
        refine hempty fun other found hother hfound => ?_
        obtain rfl := Option.some.inj (hsocket.symm.trans hother)
        exact Option.some.inj (hchild.symm.trans hfound) ▸ hdisabled
      | false => exact hplugged id child hsocket hchild hdisabled

end Renderer

/-- Two renderers agree about the sockets and slots of a block. -/
structure Renderer.ParallelAt (exact : Prop)
    (inner : Relator) (r r' : Renderer)
    (block : Block) : Prop where
  target_eq : r.setting.target = r'.setting.target
  hardware_eq : r.setting.hardware = r'.setting.hardware
  operandOr (socket : String) (fallback : Expr) :
    InStep exact inner (r.operandOr block socket fallback)
      (r'.operandOr block socket fallback)
  slot (name : String) :
    InStep exact inner (r.slot block name) (r'.slot block name)
  /-- Whether a quotient needs a cast depends on the types in the draft, so it is no step of its
  own. -/
  quotient : InStep exact inner (r.quotient block) (r'.quotient block)
  firstIsText : Agree exact (r.firstIsText block) (r'.firstIsText block)

end RobotBlocks
