import RobotBlocks.Proofs.Render.Closed
import RobotBlocks.Proofs.Render.Congruence

/-!
# Rendering and links

A workspace that passes its check is rendered without a fault about links: no reference leads nowhere,
no chain of statements comes back to a block, and blocks never stand inside one another too deep. What
gives the bound is the level of a block (`Workspace.Leveled`), which falls from a block to the blocks
in its sockets and slots. Since faults about links come out of sockets and slots only, it is enough to
look there (`Parallel.safe`).

The bound on the depth makes no difference either: on such a workspace the renderer fulfils the
equations of a renderer without a bound.
-/

set_option autoImplicit false

namespace RobotBlocks

open StaticType

/-- An answer about one block never is about its links. -/
def Local {α : Type} (answer : Except Fault α) : Prop :=
  ∀ fault, answer = .error fault → fault.isAboutLinks = false

/-- A step never ends with a fault about links. -/
def NeverDangles {σ α : Type} (action : ExceptT Fault (StateM σ) α) : Prop :=
  ∀ before fault after, Fails action before fault after → fault.isAboutLinks = false

/-- A step ends with faults of single blocks only. -/
abbrev OwnFaults {σ α : Type} (action : ExceptT Fault (StateM σ) α) : Prop :=
  FailsOnly (fun fault => fault.isOwn = true) action

theorem Fault.not_isAboutLinks {fault : Fault} (h : fault.isOwn = true) :
    fault.isAboutLinks = false := by
  unfold isOwn at h
  split at h
  · cases h
  · simpa using h

variable {α : Type}

theorem Own.isLocal {answer : Except Fault α} (h : Own answer) : Local answer :=
  fun fault hfault => Fault.not_isAboutLinks (h fault hfault)

theorem OwnFaults.neverDangles {σ : Type} {action : ExceptT Fault (StateM σ) α}
    (h : OwnFaults action) : NeverDangles action :=
  fun before fault after hfails => Fault.not_isAboutLinks (h before fault after hfails)

/-! ## Runs -/

theorem Render.closed_ownFaults : Render.Closed (@OwnFaults Draft) where
  pure a := .pure a
  bind := .bind
  throw h := FailsOnly.throw h
  get := .get
  record _ := .modify _
  withContext _ _ _ _ _ _ h := absurd h fails_modifyGet
  declare _ _ := .bind (fun _ _ _ h => absurd h fails_modifyGet) fun _ _ _ _ => .pure _

/-- A step ends with faults of single blocks only, and what it gives is one side of a relation. -/
abbrev Safe {α : Type} (R : α → α → Prop) (x : Render α) : Prop :=
  Render.Within (@OwnFaults Draft) R x

/-- A run in parallel to some run has only faults of single blocks if what it asks for does. -/
theorem Parallel.safe {exact : Prop} {R : α → α → Prop} {x y : Render α}
    (h : Parallel exact (fun _ R x _ => Safe R x) R x y) : Safe R x :=
  Render.closed_ownFaults.of_parallel h

/-! ## Sockets and slots -/

namespace Renderer

section

variable {r : Renderer} {level : String → Nat} (hlevel : r.setting.workspace.Leveled level)
variable {block : Block} (hblock : block ∈ r.setting.workspace.blocks)

include hlevel hblock

theorem ownFaults_chain
    (hstatement : ∀ child ∈ r.setting.workspace.blocks, level child.id ≤ level block.id →
      OwnFaults (r.statement child)) : OwnFaults (r.chain block.id) := by
  obtain ⟨hend, hmembers⟩ := hlevel.chain_spec hblock
  refine Render.closed_ownFaults.chain (fun fault hfault => ?_) fun child hchild => ?_
  · rw [hend] at hfault
    cases hfault
  · obtain ⟨hmem, hle⟩ := hmembers child hchild
    exact hstatement child hmem hle

/-- What is asked for in the sockets and slots of a block has only faults of single blocks if the
blocks below it do. -/
theorem parallelAt_self
    (hvalue : ∀ child ∈ r.setting.workspace.blocks, level child.id < level block.id →
      OwnFaults (r.value child))
    (hstatement : ∀ child ∈ r.setting.workspace.blocks, level child.id < level block.id →
      OwnFaults (r.statement child)) : r.ParallelAt True (fun _ R x _ => Safe R x) r block := by
  refine Render.closed_ownFaults.parallelAt ⟨?_, ?_, ?_, fun socket types => ?_⟩
  · intro socket id hsocket hnone
    obtain ⟨child, -, hget, -⟩ := hlevel.exists_child hblock (Block.mem_below_of_value hsocket)
    rw [hget] at hnone
    cases hnone
  · intro socket id child hsocket hget
    obtain ⟨found, hfound, hgetFound, hlt⟩ :=
      hlevel.exists_child hblock (Block.mem_below_of_value hsocket)
    obtain rfl : found = child := by simpa [hgetFound] using hget
    refine Render.closed_ownFaults.plugged (fun types => ?_) (hvalue found hfound hlt) block socket
    exact .liftM (own_ofBlock hlevel types hfound)
  · intro name start hslot
    obtain ⟨child, hchild, hget, hlt⟩ :=
      hlevel.exists_child hblock (Block.mem_below_of_statement hslot)
    obtain rfl := Workspace.id_of_get? hget
    exact ownFaults_chain hlevel hchild fun other hother hle => hstatement other hother (by omega)
  · exact .liftM (own_ofChild hlevel types hblock socket)

end

end Renderer

/-! ## Whole blocks and programs -/

namespace Setting

section

variable {setting : Setting} {level : String → Nat} (hlevel : setting.workspace.Leveled level)
variable {block : Block}
include hlevel

section

variable (hblock : block ∈ setting.workspace.blocks)

include hblock

theorem ownFaults_rendererWithin {depth : Nat} (hdepth : level block.id < depth) :
    OwnFaults ((setting.rendererWithin depth).value block) ∧
      OwnFaults ((setting.rendererWithin depth).statement block) := by
  induction depth generalizing block with
  | zero => omega
  | succ depth ih =>
    have hleveled : (setting.rendererWithin depth).setting.workspace.Leveled level := by
      simpa using hlevel
    have hat : (setting.rendererWithin depth).ParallelAt True (fun _ R x _ => Safe R x)
        (setting.rendererWithin depth) block := by
      refine Renderer.parallelAt_self hleveled ?_ ?_ ?_
      · simpa using hblock
      · intro child hchild hlt
        exact (ih (by simpa using hchild) (by omega)).1
      · intro child hchild hlt
        exact (ih (by simpa using hchild) (by omega)).2
    exact ⟨hat.renderValue.safe.1, hat.renderStatement.safe.1⟩

/-- Depths above the level of a block make no difference. -/
theorem rendererWithin_eq_rendererWithin {depth depth' : Nat} (hdepth : level block.id < depth)
    (hdepth' : level block.id < depth') :
    (setting.rendererWithin depth).value block = (setting.rendererWithin depth').value block ∧
      (setting.rendererWithin depth).statement block =
        (setting.rendererWithin depth').statement block := by
  induction depth generalizing depth' block with
  | zero => omega
  | succ depth ih =>
    cases depth' with
    | zero => omega
    | succ depth' =>
      have hat : (setting.rendererWithin depth).ParallelAt True (fun _ => Alike Eq)
          (setting.rendererWithin depth') block := by
        refine Renderer.parallelAt ?_ ?_ ?_
        · simpa using SameRun.refl setting
        · intro socket id child hsocket hget
          obtain ⟨found, hfound, hgetFound, hlt⟩ :=
            hlevel.exists_child hblock (Block.mem_below_of_value hsocket)
          obtain rfl : found = child := by simpa [hgetFound] using hget
          exact (ih hfound (by omega) (by omega)).1
        · intro slot start hslot child hchild
          obtain ⟨first, hfirst, hgetFirst, hlt⟩ :=
            hlevel.exists_child hblock (Block.mem_below_of_statement hslot)
          obtain rfl := Workspace.id_of_get? hgetFirst
          obtain ⟨hmem, hle⟩ := (hlevel.chain_spec hfirst).2 child (by simpa using hchild)
          exact (ih hmem (by omega) (by omega)).2
      exact ⟨hat.renderValue.runs_eq, hat.renderStatement.runs_eq⟩

/-- The renderer fulfils the equations of a renderer without a bound. -/
theorem renderer_eq :
    setting.renderer.value block = setting.renderer.renderValue block ∧
      setting.renderer.statement block = setting.renderer.renderStatement block := by
  have hlt := hlevel.lt_size block hblock
  exact rendererWithin_eq_rendererWithin hlevel hblock hlt (Nat.lt_succ_of_lt hlt)

end

theorem ownFaults_inferAll : OwnFaults (Inference.inferAll setting.workspace) := by
  have hchildType : ∀ block ∈ setting.workspace.blocks, ∀ socket,
      OwnFaults (Inference.childType setting.workspace block socket) := by
    intro block hblock socket
    refine FailsOnly.get.bind fun _ table _ _ => ?_
    exact .liftM (own_ofChild hlevel table hblock socket)
  have harguments : ∀ block ∈ setting.workspace.blocks, ∀ index parameters,
      OwnFaults (Inference.addArguments setting.workspace block index parameters) := by
    intro block hblock index parameters
    induction parameters generalizing index with
    | nil => exact .pure _
    | cons parameter rest ih =>
      refine (hchildType block hblock _).bind fun _ type _ _ => ?_
      exact (FailsOnly.modify _).bind fun _ _ _ _ => ih _
  have henabled : ∀ block ∈ setting.workspace.byId.filter (fun block => !block.disabled),
      block ∈ setting.workspace.blocks := by
    intro block hblock
    exact List.mem_mergeSort.1 (List.mem_of_mem_filter hblock)
  unfold Inference.inferAll
  refine (FailsOnly.forM _ fun block hblock => ?_).bind fun _ _ _ _ =>
    (FailsOnly.modify _).bind fun _ _ _ _ => FailsOnly.forM _ fun block hblock => ?_
  · unfold Inference.addValues
    split
    · refine (FailsOnly.liftM (block.own_requiredField _)).bind fun _ name _ _ => ?_
      refine (hchildType block (henabled block hblock) _).bind fun _ type _ _ => ?_
      exact .modify _
    · refine (FailsOnly.liftM block.own_procedureName).bind fun _ name _ _ => ?_
      exact harguments block (henabled block hblock) _ _
    · exact .pure _
  · unfold Inference.addResult
    split
    · refine (FailsOnly.liftM block.own_procedureName).bind fun _ name _ _ => ?_
      refine (hchildType block (henabled block hblock) _).bind fun _ type _ _ => ?_
      exact .modify _
    · exact .pure _

theorem ownFaults_inferTypes : OwnFaults (Render.inferTypes setting.workspace) := by
  refine FailsOnly.get.bind fun _ draft _ _ => ?_
  refine (FailsOnly.modify _).bind fun _ _ _ _ => ?_
  refine (FailsOnly.liftM fun fault hfault => ?_).bind fun _ _ _ _ => .modify _
  exact ownFaults_inferAll hlevel _ fault _ (Prod.ext hfault rfl)

theorem ownFaults_renderer (hblock : block ∈ setting.workspace.blocks) :
    OwnFaults (setting.renderer.value block) ∧ OwnFaults (setting.renderer.statement block) :=
  ownFaults_rendererWithin hlevel hblock (hlevel.lt_size block hblock)

theorem parallelAt_renderer (hblock : block ∈ setting.workspace.blocks) :
    setting.renderer.ParallelAt True (fun _ R x _ => Safe R x) setting.renderer block := by
  have hleveled : setting.renderer.setting.workspace.Leveled level := by simpa using hlevel
  refine Renderer.parallelAt_self hleveled ?_ ?_ ?_
  · simpa using hblock
  · intro child hchild _
    exact (ownFaults_renderer hlevel (by simpa using hchild)).1
  · intro child hchild _
    exact (ownFaults_renderer hlevel (by simpa using hchild)).2

theorem ownFaults_chain (hblock : block ∈ setting.workspace.blocks) :
    OwnFaults (setting.renderer.chain block.id) := by
  have hleveled : setting.renderer.setting.workspace.Leveled level := by simpa using hlevel
  refine Renderer.ownFaults_chain hleveled ?_ ?_
  · simpa using hblock
  · intro child hchild _
    exact (ownFaults_renderer hlevel (by simpa using hchild)).2

theorem parallelRoots_self :
    setting.renderer.ParallelRoots True (fun _ R x _ => Safe R x) setting.renderer := by
  have hroots : ∀ root ∈ setting.renderer.setting.workspace.roots,
      root ∈ setting.workspace.blocks := by
    intro root hroot
    rw [setting_renderer] at hroot
    exact List.mem_of_mem_filter (List.mem_mergeSort.1 hroot)
  refine ⟨Block.sameRoots_of_eq rfl, rfl, rfl, fun root hroot _ => ?_, fun root hroot _ => ?_,
    fun root hroot _ => ?_⟩
  · exact parallelAt_renderer hlevel (hroots root hroot)
  · exact .inner (.of (ownFaults_chain hlevel (hroots root hroot)))
  · exact .inner (.of (ownFaults_renderer hlevel (hroots root hroot)).1)

/-- The only fault of a program that none of its blocks has by itself is a bad name for the class. -/
theorem fails_program {registration : Registration} {before after : Draft} {fault : Fault}
    (h : Fails (setting.program registration) before fault after) :
    fault.isOwn = true ∨ fault = .badClassName setting.options.className ∧
      Identifier.isClassName setting.options.className = false := by
  have hroots := parallelRoots_self hlevel
  obtain h | ⟨_, begun, -, h⟩ := fails_bind.1 h
  · exact absurd h fails_modify
  split at h
  · exact .inl ((Script.parallel_program hroots).safe.1 begun fault after h)
  · obtain h | ⟨_, typed, -, h⟩ := fails_bind.1 h
    · exact .inl (ownFaults_inferTypes hlevel begun fault after h)
    · unfold Compiled.program at h
      rw [setting_renderer] at h
      dsimp only at h
      split at h
      · rename_i hname
        obtain h | ⟨_, _, h, -⟩ := fails_bind.1 h
        · obtain ⟨rfl, -⟩ := fails_throw.1 h
          exact .inr ⟨rfl, by simpa using hname⟩
        · exact absurd h yields_throw
      · have hparts := (Compiled.parallel_renderParts hroots registration).safe.1
        have hcollect : OwnFaults (Compiled.collect setting.renderer registration) :=
          hparts.bind fun _ _ _ _ => .of_sure fun _ => ⟨_, _, rfl⟩
        exact .inl (hcollect.bind (fun _ _ _ _ => .pure _) typed fault after h)

end

end Setting

/-- On a workspace that passes its check, levels below the number of blocks fall along all links, so
rendering and typing are well-founded recursions of at most that depth: the renderer and the static
types fulfil their equations without a bound. From no draft does a block, a socket, a slot, a chain, a
static type or the whole program end with a fault about links. -/
theorem validated_rendering_never_dangles {setting : Setting}
    (hvalid : setting.workspace.validate = .ok ()) :
    (∃ level, setting.workspace.Leveled level) ∧
      (∀ block ∈ setting.workspace.blocks,
        (setting.renderer.value block = setting.renderer.renderValue block ∧
          setting.renderer.statement block = setting.renderer.renderStatement block ∧
          ∀ table, StaticType.ofBlock setting.workspace table block =
            StaticType.step setting.workspace table
              (StaticType.ofBlock setting.workspace table) block) ∧
        NeverDangles (setting.renderer.value block) ∧
        NeverDangles (setting.renderer.statement block) ∧
        (∀ socket fallback, NeverDangles (setting.renderer.operandOr block socket fallback)) ∧
        (∀ name, NeverDangles (setting.renderer.slot block name)) ∧
        NeverDangles (setting.renderer.chain block.id) ∧
        (∀ table, Local (StaticType.ofBlock setting.workspace table block)) ∧
        ∀ table socket, Local (StaticType.ofChild setting.workspace table block socket)) ∧
      ∀ registration, NeverDangles (setting.program registration) := by
  obtain ⟨level, hlevel⟩ := Workspace.exists_leveled_of_validate hvalid
  refine ⟨⟨level, hlevel⟩, fun block hblock => ?_, fun registration before fault after h => ?_⟩
  swap
  · obtain h | ⟨rfl, -⟩ := Setting.fails_program hlevel h
    · exact Fault.not_isAboutLinks h
    · rfl
  obtain ⟨hvalueEq, hstatementEq⟩ := Setting.renderer_eq hlevel hblock
  obtain ⟨hvalue, hstatement⟩ := Setting.ownFaults_renderer hlevel hblock
  have hat := Setting.parallelAt_renderer hlevel hblock
  refine ⟨⟨hvalueEq, hstatementEq, fun table => ?_⟩, hvalue.neverDangles, hstatement.neverDangles,
    fun socket fallback => (hat.operandOr socket fallback).safe.1.neverDangles,
    fun name => (hat.slot name).safe.1.neverDangles,
    (Setting.ownFaults_chain hlevel hblock).neverDangles,
    fun table => (own_ofBlock hlevel table hblock).isLocal,
    fun table socket => (own_ofChild hlevel table hblock socket).isLocal⟩
  exact ofBlock_eq_step hlevel table hblock

namespace RepeatSample

def setting : Setting := { workspace, target := .java }

/-- The loop around an assignment passes its check, and nothing in it dangles. -/
theorem repeat_rendering_never_dangles :
    setting.workspace.validate = .ok () ∧ NeverDangles (setting.renderer.statement loop) ∧
      NeverDangles (setting.renderer.chain assignment.id) ∧
      NeverDangles (setting.renderer.value number) ∧
      ∀ registration, NeverDangles (setting.program registration) := by
  have hvalid : setting.workspace.validate = .ok () := validate_workspace
  have hmem : ∀ block ∈ [loop, assignment, number], block ∈ setting.workspace.blocks :=
    fun block hblock => hblock
  obtain ⟨-, hblocks, hprogram⟩ := validated_rendering_never_dangles hvalid
  obtain ⟨-, -, hloop, -⟩ := hblocks loop (hmem loop (by simp))
  obtain ⟨-, -, -, -, -, hchain, -⟩ := hblocks assignment (hmem assignment (by simp))
  obtain ⟨-, hnumber, -⟩ := hblocks number (hmem number (by simp))
  exact ⟨hvalid, hloop, hchain, hnumber, hprogram⟩

end RepeatSample

end RobotBlocks
