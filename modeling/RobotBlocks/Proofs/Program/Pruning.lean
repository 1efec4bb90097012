import RobotBlocks.Proofs.Render.Pruning

/-!
# Programs with blocks switched off

A program that can be rendered can be rendered with any of its blocks switched off, except the roots.
The text may become quite another one: types, names, conversions and imports all depend on what is
left. That it exists does not depend on them, for whatever fails with one draft fails with every draft
and fails when more blocks are enabled.
-/

set_option autoImplicit false

namespace RobotBlocks

namespace Renderer

theorem operand_eq_placeholder {r : Renderer} {block : Block} {socket : String}
    (h : ∀ id, block.values.get? socket = some id →
      ∃ child, r.setting.workspace.get? id = some child ∧ child.disabled = true) :
    r.operand block socket = pure (r.placeholder block socket) := by
  unfold operand
  cases hsocket : block.values.get? socket with
  | none => exact operandOr_of_get?_eq_none hsocket _
  | some id =>
    obtain ⟨child, hchild, hdisabled⟩ := h id hsocket
    rw [operandOr_of_get?_eq_some hsocket hchild, if_pos hdisabled]

end Renderer

namespace Program

/-- The program with some of the blocks that hang somewhere disabled. -/
def prune (program : Program) (off : String → Bool) : Program :=
  { program with workspace := program.workspace.prune off }

/-- How a program is rendered. -/
def settingFor (program : Program) (target : Target) (hardware : Hardware) (options : ClassOptions) :
    Setting :=
  { workspace := program.workspace, hardware, target, options }

end Program

/-- A program that can be rendered can be rendered with any blocks below the roots switched off. It
can be rendered from every draft then, whatever names, imports and types that holds, and so can each
block that could be rendered from some draft before. A socket whose block is switched off gets its
placeholder. -/
theorem pruning_keeps_rendering {program : Program} {target : Target} {hardware : Hardware}
    {options : ClassOptions} {text : String}
    (h : (program.render target hardware options).1 = .ok text) (off : String → Bool) :
    (∃ pruned, ((program.prune off).render target hardware options).1 = .ok pruned) ∧
      (∀ draft, ∃ pruned,
        (Setting.step (((program.prune off).settingFor target hardware options).program
          program.registration) draft).1 = .ok pruned) ∧
      (∀ block,
        (Able ((program.settingFor target hardware options).renderer.value block) →
          Sure (((program.prune off).settingFor target hardware options).renderer.value block)) ∧
        (Able ((program.settingFor target hardware options).renderer.statement block) →
          Sure (((program.prune off).settingFor target hardware options).renderer.statement block))) ∧
      ∀ block socket,
        (∀ id, block.values.get? socket = some id → ∃ child, program.workspace.get? id = some child ∧
          (child.disabled = true ∨ child.parent.isSome ∧ off id = true)) →
        ((program.prune off).settingFor target hardware options).renderer.operand block socket =
          pure (((program.prune off).settingFor target hardware options).renderer.placeholder
            block socket) := by
  let setting := program.settingFor target hardware options
  have hable : Able (setting.program program.registration) :=
    ⟨setting.firstDraft, text, _, yields_of_fst_run_eq h⟩
  have hsure : Sure ((setting.prune off).program program.registration) :=
    Setting.sure_program_prune hable off
  have hsteps : ∀ draft, ∃ pruned,
      (Setting.step ((setting.prune off).program program.registration) draft).1 = .ok pruned := by
    intro draft
    obtain ⟨pruned, after, hyields⟩ := hsure draft
    exact ⟨pruned, congrArg Prod.fst hyields⟩
  have hcovers := Setting.covers_renderer setting off
  refine ⟨hsteps _, hsteps, fun block => ⟨hcovers.value block, hcovers.statement block⟩, ?_⟩
  intro block socket hoff
  refine Renderer.operand_eq_placeholder fun id hid => ?_
  obtain ⟨child, hchild, hdisabled⟩ := hoff id hid
  obtain rfl := Workspace.id_of_get? hchild
  refine ⟨child.pruned off, ?_, ?_⟩
  · simp [Program.settingFor, Program.prune, Workspace.get?_prune, hchild]
  · unfold Block.pruned
    rcases hdisabled with hdisabled | ⟨hparent, hoff⟩
    · split
      · rfl
      · exact hdisabled
    · rw [if_pos (by simp [hparent, hoff])]

namespace RepeatSample

theorem roots_workspace : workspace.roots = [loop] := by
  unfold Workspace.roots
  exact List.mergeSort_singleton loop

theorem render_workspace : (Program.render { workspace } .javaScript {} {}).1 =
    .ok "var x;\n\nfor (var count = 0; count < 0; count++) \x7b\n  x = 3;\n\x7d\n" := by
  unfold Program.render Setting.program Script.program
  simp only [Setting.setting_renderer, roots_workspace]
  decide

/-- A loop can be rendered, so it can be with any of the blocks inside it switched off. -/
theorem repeat_pruning_keeps_rendering :
    (∃ text, (Program.render { workspace } .javaScript {} {}).1 = .ok text) ∧
      ∀ off, ∃ pruned, ((Program.prune { workspace } off).render .javaScript {} {}).1 = .ok pruned :=
  ⟨⟨_, render_workspace⟩, fun off => (pruning_keeps_rendering render_workspace off).1⟩

end RepeatSample

end RobotBlocks
