import RobotBlocks.Proofs.Render.Blocks
import RobotBlocks.Proofs.Workspace.Level

/-!
# How deep static types look

On a leveled workspace the static type of a block never runs out of depth and never meets a link that
leads nowhere (`own_ofBlock`), and more depth makes no difference (`within_eq_ofBlock`). Both go by
the depth: the blocks in the sockets of a block have lower levels. The same holds for inference, which
only asks for such types.
-/

set_option autoImplicit false

namespace RobotBlocks

namespace Block

theorem own_inputType (block : Block) (socket : String) : Own (block.inputType socket) := by
  unfold inputType
  split
  · exact (DeviceProperty.own_of _ _ _).bind fun _ => .ok _
  · exact .ok _

theorem own_outputType (block : Block) : Own block.outputType := by
  unfold outputType
  split
  · exact (ColorProperty.own_of _).bind fun _ => .ok _
  · exact (GamepadProperty.own_of _ _).bind fun _ => .ok _
  · exact (DeviceProperty.own_of _ _ _).bind fun _ => .ok _
  · split <;> exact .ok _

end Block

namespace StaticType

theorem own_stated (block : Block) : Own (stated block) := by
  refine block.own_outputType.bind fun declared => ?_
  split
  · exact .ok _
  · split <;> exact .ok _

variable {socket : String}

section

variable {w w' : Workspace} {block : Block} {table : TypeTable} {typeOf typeOf' : Block → Answer}

theorem inSocket_of_get?_eq_none (h : block.values.get? socket = none) :
    inSocket w typeOf block socket = .ok none := by
  unfold inSocket
  rw [h]

theorem inSocket_of_get?_eq_some {id : String} {child : Block}
    (hsocket : block.values.get? socket = some id) (hchild : w.get? id = some child) :
    inSocket w typeOf block socket = if child.disabled then .ok none else typeOf child := by
  unfold inSocket Workspace.block
  rw [hsocket]
  dsimp only
  rw [hchild]
  rfl

theorem inSocket_of_dangling {id : String} (hsocket : block.values.get? socket = some id)
    (hchild : w.get? id = none) : inSocket w typeOf block socket = .error (.unknownBlock id) := by
  unfold inSocket Workspace.block
  rw [hsocket]
  dsimp only
  rw [hchild]
  rfl

theorem own_step (h : ∀ socket, Own (inSocket w typeOf block socket)) :
    Own (step w table typeOf block) := by
  have hnumeric : ∀ socket, Own (numericInSocket w typeOf block socket) := fun socket =>
    (h socket).bind fun _ => .ok _
  unfold step
  split
  · exact block.own_literal.bind fun _ => .ok _
  · split
    · exact .ok _
    · exact (hnumeric "A").bind fun _ => (hnumeric "B").bind fun _ => .ok _
  · split
    · exact (h "NUM").bind fun _ => .ok _
    · exact .ok _
  · exact (block.own_requiredField _).bind fun _ => .ok _
  · exact block.own_procedureName.bind fun _ => .ok _
  · refine (h "THEN").bind fun yes => (h "ELSE").bind fun no => ?_
    split <;> exact .ok _
  · exact own_stated block

theorem step_congr (h : ∀ socket, inSocket w typeOf block socket = inSocket w' typeOf' block socket) :
    step w table typeOf block = step w' table typeOf' block := by
  unfold step numericInSocket
  simp only [h]

theorem own_ofSocket (w : Workspace) (table : TypeTable) (block : Block) (socket : String) :
    Own (ofSocket w table block socket) := by
  unfold ofSocket
  split
  · split
    · exact (block.own_requiredField _).bind fun _ => .ok _
    · exact block.own_inputType socket
  · exact block.own_procedureName.bind fun _ => .ok _
  · exact block.own_inputType socket

end

/-! ## Leveled workspaces -/

variable {typeOf : Block → Answer}

/-- The type in a socket is known if those of the enabled blocks are that can stand there. -/
theorem known_inSocket {w : Workspace} {block : Block}
    (h : ∀ id, block.values.get? socket = some id →
      ∃ child, w.get? id = some child ∧ (child.disabled = false → Known (typeOf child))) :
    Known (inSocket w typeOf block socket) := by
  cases hsocket : block.values.get? socket with
  | none =>
    rw [inSocket_of_get?_eq_none hsocket]
    exact .ok _
  | some id =>
    obtain ⟨child, hchild, hknown⟩ := h id hsocket
    rw [inSocket_of_get?_eq_some hsocket hchild]
    split
    · exact .ok _
    · rename_i henabled
      exact hknown (by simpa using henabled)

section

variable {w : Workspace} {level : String → Nat} (hlevel : w.Leveled level)
variable {block : Block}
include hlevel

theorem own_inSocket (hblock : block ∈ w.blocks)
    (h : ∀ child ∈ w.blocks, level child.id < level block.id → Own (typeOf child))
    (socket : String) : Own (inSocket w typeOf block socket) := by
  cases hsocket : block.values.get? socket with
  | none =>
    rw [inSocket_of_get?_eq_none hsocket]
    exact .ok _
  | some id =>
    obtain ⟨child, hchild, hget, hlt⟩ :=
      hlevel.exists_child hblock (Block.mem_below_of_value hsocket)
    rw [inSocket_of_get?_eq_some hsocket hget]
    split
    · exact .ok _
    · exact h child hchild hlt

variable {depth : Nat}

theorem own_within (table : TypeTable) (hblock : block ∈ w.blocks)
    (hdepth : level block.id < depth) : Own (within w table depth block) := by
  induction depth generalizing block with
  | zero => omega
  | succ depth ih =>
    refine own_step (own_inSocket hlevel hblock fun child hchild hlt => ?_)
    exact ih hchild (by omega)

theorem own_ofBlock (table : TypeTable) (hblock : block ∈ w.blocks) : Own (ofBlock w table block) :=
  own_within hlevel table hblock (hlevel.lt_size block hblock)

theorem own_ofChild (table : TypeTable) (hblock : block ∈ w.blocks) (socket : String) :
    Own (ofChild w table block socket) :=
  own_inSocket hlevel hblock (fun _ hchild _ => own_ofBlock hlevel table hchild) socket

theorem within_eq_within (table : TypeTable) {depth' : Nat} (hblock : block ∈ w.blocks)
    (hdepth : level block.id < depth) (hdepth' : level block.id < depth') :
    within w table depth block = within w table depth' block := by
  induction depth generalizing depth' block with
  | zero => omega
  | succ depth ih =>
    cases depth' with
    | zero => omega
    | succ depth' =>
      refine step_congr fun socket => ?_
      cases hsocket : block.values.get? socket with
      | none => rw [inSocket_of_get?_eq_none hsocket, inSocket_of_get?_eq_none hsocket]
      | some id =>
        obtain ⟨child, hchild, hget, hlt⟩ :=
          hlevel.exists_child hblock (Block.mem_below_of_value hsocket)
        have hsame : within w table depth child = within w table depth' child :=
          ih hchild (by omega) (by omega)
        rw [inSocket_of_get?_eq_some hsocket hget, inSocket_of_get?_eq_some hsocket hget, hsame]

theorem within_eq_ofBlock (table : TypeTable) (hdepth : w.size ≤ depth)
    (hblock : block ∈ w.blocks) : within w table depth block = ofBlock w table block := by
  have hlt := hlevel.lt_size block hblock
  exact within_eq_within hlevel table hblock (by omega) hlt

/-- The static type of a block comes from the static types of the blocks in its sockets. -/
theorem ofBlock_eq_step (table : TypeTable) (hblock : block ∈ w.blocks) :
    ofBlock w table block = step w table (ofBlock w table) block :=
  (within_eq_ofBlock hlevel table (Nat.le_succ _) hblock).symm

end

end StaticType

end RobotBlocks
