import RobotBlocks.Proofs.Render.Congruence
import RobotBlocks.Proofs.Workspace.Level

/-!
# The order of storage

The order in which a workspace lists its blocks cannot be seen from outside. The roots, the check of
the links and the whole rendered program, with all events and faults, depend only on which block is
found under which identity and on the names of the variables.

For rendering the argument goes by the depth of nesting: renderers that do the same for the blocks
inside a block do the same for the block.
-/

set_option autoImplicit false

namespace RobotBlocks

open Program (render)

namespace Setting

variable {setting setting' : Setting}

section

variable (hrun : setting.SameRun setting')

include hrun

theorem rendererWithin_eq (depth : Nat) :
    (setting.rendererWithin depth).value = (setting'.rendererWithin depth).value ∧
      (setting.rendererWithin depth).statement = (setting'.rendererWithin depth).statement := by
  induction depth with
  | zero => exact ⟨rfl, rfl⟩
  | succ depth ih =>
    obtain ⟨hvalue, hstatement⟩ := ih
    have hat : ∀ block, (setting.rendererWithin depth).ParallelAt True (fun _ => Alike Eq)
        (setting'.rendererWithin depth) block := by
      intro block
      refine Renderer.parallelAt ?_ (fun _ _ child _ _ => congrFun hvalue child)
        (fun _ _ _ child _ => congrFun hstatement child)
      simpa using hrun
    constructor
    · funext block
      exact (hat block).renderValue.runs_eq
    · funext block
      exact (hat block).renderStatement.runs_eq

theorem parallelRoots_of_sameRun :
    setting.renderer.ParallelRoots True (fun _ => Alike Eq) setting'.renderer := by
  obtain ⟨hvalue, hstatement⟩ := rendererWithin_eq hrun setting.workspace.size
  have hsetting : setting.renderer.setting.SameRun setting'.renderer.setting := by
    simpa [renderer] using hrun
  rw [show setting'.renderer = setting'.rendererWithin setting.workspace.size by
    rw [renderer, hrun.sameBlocks.size_eq]] at hsetting ⊢
  refine ⟨Block.sameRoots_of_eq hsetting.sameBlocks.roots_eq, hsetting.variableNames_eq,
    hsetting.options_eq, fun root _ _ => ?_, fun root _ _ => .of_eq ?_,
    fun root _ _ => .of_eq (congrFun hvalue root)⟩
  · exact Renderer.parallelAt hsetting (fun _ _ child _ _ => congrFun hvalue child)
      (fun _ _ _ child _ => congrFun hstatement child)
  · exact Renderer.chain_eq hsetting fun child _ => congrFun hstatement child

theorem program_eq (registration : Registration) :
    setting.program registration = setting'.program registration := by
  have hroots := parallelRoots_of_sameRun hrun
  have hinfer : Render.inferTypes setting.workspace = Render.inferTypes setting'.workspace := by
    unfold Render.inferTypes
    rw [hrun.sameBlocks.inferAll_eq hrun.variableNames_eq]
  unfold program
  rw [hrun.sameBlocks.size_eq, hrun.target_eq, hinfer, (Script.parallel_program hroots).runs_eq,
    (Compiled.parallel_program hroots registration (fun _ => .throw _) (.refl _)).runs_eq]

theorem firstDraft_eq : setting.firstDraft = setting'.firstDraft := by
  unfold firstDraft firstContext ownPackage
  rw [hrun.target_eq, hrun.hardware_eq, hrun.options_eq, hrun.variableNames_eq]

end

end Setting

/-- Two workspaces with the same blocks under the same identities and the same variables have the same
roots, pass or fail the check of their links in the same way, and are rendered to the same text or the
same fault, whatever the target, the hardware, the options and the registration. -/
theorem storage_order_is_irrelevant {w w' : Workspace} (hblocks : ∀ id, w.get? id = w'.get? id)
    (hnames : w.variableNames = w'.variableNames) :
    w.roots = w'.roots ∧ w.validate = w'.validate ∧
      ∀ registration target hardware options,
        render { workspace := w, registration } target hardware options =
          render { workspace := w', registration } target hardware options := by
  have hsame : w.SameBlocks w' := hblocks
  refine ⟨hsame.roots_eq, hsame.validate_eq, fun registration target hardware options => ?_⟩
  have hrun : Setting.SameRun { workspace := w, hardware, target, options }
      { workspace := w', hardware, target, options } := ⟨hsame, hnames, rfl, rfl, rfl⟩
  unfold render
  dsimp only
  rw [Setting.program_eq hrun, Setting.firstDraft_eq hrun]

/-! ## A workspace in two orders -/

namespace RepeatSample

/-- The loop around an assignment, with the innermost block first. -/
def reversed : Workspace where
  blocks := [number, assignment, loop]
  variableNames := ["x"]
  distinct := by decide

theorem sameBlocks_reversed : workspace.SameBlocks reversed :=
  Workspace.sameBlocks_of_perm (List.reverse_perm [number, assignment, loop])

/-- The workspaces list their blocks in different orders, and nobody can tell. -/
theorem repeat_storage_order_is_irrelevant :
    workspace.blocks.map Block.id ≠ reversed.blocks.map Block.id ∧
      workspace.roots = reversed.roots ∧ workspace.validate = reversed.validate ∧
      ∀ registration target hardware options,
        render { workspace, registration } target hardware options =
          render { workspace := reversed, registration } target hardware options :=
  ⟨by decide, storage_order_is_irrelevant sameBlocks_reversed rfl⟩

end RepeatSample

end RobotBlocks
