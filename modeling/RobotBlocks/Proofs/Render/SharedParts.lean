import RobotBlocks.Proofs.Render.Live
import RobotBlocks.Proofs.Workspace.Chains

/-!
# Shared parts of scripts

In a script, the text of a block depends on what stands in its sockets and slots and on nothing else of
the workspace. So two workspaces may differ elsewhere: if they share a part that goes down to the last
block, all blocks of the part, and all blocks with only such blocks inside, are rendered alike
(`Setting.SharePart.alike`), and so are the roots in the part (`Setting.SharePart.alike_section?`).
-/

set_option autoImplicit false

namespace RobotBlocks

/-- Two scripts share a part of their workspaces. -/
structure Setting.SharePart (setting setting' : Setting) (part : Block → Prop) : Prop where
  blocks : setting.workspace.SharePart setting'.workspace part
  size_eq : setting.workspace.size = setting'.workspace.size
  hardware_eq : setting.hardware = setting'.hardware
  script : setting.target = .javaScript
  script' : setting'.target = .javaScript

namespace Renderer

variable {r r' : Renderer} {part : Block → Prop} (hrun : r.setting.SharePart r'.setting part)
variable (hvalue : ∀ child, part child → SameAnswer (r.value child) (r'.value child))
variable (hstatement : ∀ child, part child → SameAnswer (r.statement child) (r'.statement child))
variable {block : Block}
variable (hinside : r.setting.workspace.SharesInside r'.setting.workspace part block)

include hrun

include hstatement

theorem alike_chain_of_part {start : String}
    (hstart : r.setting.workspace.Shares r'.setting.workspace part start) :
    SameAnswer (r.chain start) (r'.chain start) := by
  obtain ⟨hchain, hmembers⟩ := hrun.blocks.chain hrun.size_eq hstart
  unfold Renderer.chain
  rw [← hchain]
  dsimp only
  have hlinks : SameAnswer ((r.setting.workspace.chain start).1.mapM r.link)
      ((r.setting.workspace.chain start).1.mapM r'.link) := by
    refine alike_links (List.forall₂_same.2 fun child hchild => ⟨rfl, rfl, fun _ => ⟨rfl, ?_⟩⟩)
    exact hstatement child (hmembers child hchild)
  refine hlinks.bind fun texts texts' htexts => ?_
  obtain rfl := htexts trivial
  split
  · exact .throw _
  · exact .pure (.refl _)

include hvalue hinside in
/-- Two renderers that do the same for the shared blocks agree about the sockets and slots that hold
such blocks only. -/
theorem parallelAt_of_inside : r.ParallelAt True (fun _ => Alike Draft.SameWork) r' block := by
  refine parallelAt_of_alike Draft.indistinct_sameWork (hrun.script.trans hrun.script'.symm)
    hrun.hardware_eq (fun socket id hsocket => .inr ?_) (fun name start hslot => ?_) ?_
  · obtain ⟨child, hget, hget', hchild⟩ := hinside (.value socket) id (by simp) hsocket
    refine ⟨child, child, hget, hget', rfl, rfl, fun _ => ⟨rfl, hvalue child hchild, fun hjava => ?_⟩⟩
    rw [hrun.script] at hjava
    cases hjava
  · exact alike_chain_of_part hrun hstatement (hinside (.statement name) start (by simp) hslot)
  · unfold dropsFraction
    rw [hrun.script, hrun.script']
    exact .pure (.refl _)

end Renderer

namespace Setting.SharePart

variable {setting setting' : Setting} {part : Block → Prop}

/-- Blocks inside a shared part are rendered alike in both settings. -/
theorem alike (hrun : setting.SharePart setting' part) (depth : Nat) {block : Block}
    (hinside : setting.workspace.SharesInside setting'.workspace part block) :
    SameAnswer ((setting.rendererWithin depth).value block)
        ((setting'.rendererWithin depth).value block) ∧
      SameAnswer ((setting.rendererWithin depth).statement block)
        ((setting'.rendererWithin depth).statement block) := by
  induction depth generalizing block with
  | zero => exact ⟨.throw _, .throw _⟩
  | succ depth ih =>
    have hrun' : (setting.rendererWithin depth).setting.SharePart
        (setting'.rendererWithin depth).setting part := by
      simpa using hrun
    have hat : (setting.rendererWithin depth).ParallelAt True (fun _ => Alike Draft.SameWork)
        (setting'.rendererWithin depth) block := by
      refine Renderer.parallelAt_of_inside hrun' ?_ ?_ (by simpa using hinside)
      · exact fun child hchild => (ih (hrun.blocks.inside hchild)).1
      · exact fun child hchild => (ih (hrun.blocks.inside hchild)).2
    exact ⟨hat.renderValue.alike Draft.indistinct_sameWork,
      hat.renderStatement.alike Draft.indistinct_sameWork⟩

/-- The section of a root in the part is the same in both scripts. -/
theorem alike_section? (hrun : setting.SharePart setting' part) {root : Block} (hroot : part root)
    (hshares : setting.workspace.Shares setting'.workspace part root.id) :
    SameAnswer (Script.section? setting.renderer root) (Script.section? setting'.renderer root) := by
  have hrenderer : setting'.renderer = setting'.rendererWithin setting.workspace.size := by
    rw [renderer, hrun.size_eq]
  have hrun' : setting.renderer.setting.SharePart setting'.renderer.setting part := by
    simpa using hrun
  have hpart : ∀ child, part child →
      SameAnswer (setting.renderer.value child) (setting'.renderer.value child) ∧
        SameAnswer (setting.renderer.statement child) (setting'.renderer.statement child) := by
    intro child hchild
    rw [hrenderer]
    exact hrun.alike setting.workspace.size (hrun.blocks.inside hchild)
  have hat : setting.renderer.ParallelAt True (fun _ => Alike Draft.SameWork) setting'.renderer root :=
    Renderer.parallelAt_of_inside hrun' (fun child hchild => (hpart child hchild).1)
      (fun child hchild => (hpart child hchild).2) (by simpa using hrun.blocks.inside hroot)
  refine (Script.parallel_section?_same (fun _ => hat) (fun _ => .inner ?_)
    (fun _ => .inner (hpart root hroot).1)).alike Draft.indistinct_sameWork
  exact Renderer.alike_chain_of_part hrun' (fun child hchild => (hpart child hchild).2)
    (by simpa using hshares)

end Setting.SharePart

end RobotBlocks
