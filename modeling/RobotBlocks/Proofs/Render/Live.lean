import RobotBlocks.Proofs.Render.Links
import RobotBlocks.Proofs.StaticType.Live

/-!
# Rendering live blocks

Rendering never comes to a dead block. Two renderers whose workspaces have the same live blocks do the
same to each of them (`Setting.alike_renderer`), and so to the roots
(`Setting.parallelRoots_of_sameLive`). They may differ in what they record, which nothing depends on.

For classes this takes for granted that the workspaces agree about the parameters of procedures:
a definition is looked up among all blocks, the dead ones too.
-/

set_option autoImplicit false

namespace RobotBlocks

open Workspace

/-- Two settings differ at most in dead blocks. -/
structure Setting.SameLive (pastRoots : Bool) (setting setting' : Setting) : Prop where
  blocks : setting.workspace.SameLive pastRoots setting'.workspace
  valid : setting.workspace.validate = .ok ()
  valid' : setting'.workspace.validate = .ok ()
  variableNames_eq : setting.workspace.variableNames = setting'.workspace.variableNames
  hardware_eq : setting.hardware = setting'.hardware
  target_eq : setting.target = setting'.target
  options_eq : setting.options = setting'.options
  parameters_eq : setting.target = .java →
    ∀ name, setting.workspace.parameters? name = setting'.workspace.parameters? name

/-- Two runs from drafts that differ in events only end alike, up to events. -/
abbrev SameAnswer {α : Type} (x y : Render α) : Prop := Alike Draft.SameWork (Agree True) x y

theorem SameAnswer.get_bind {β : Type} {f g : Draft → Render β}
    (h : ∀ draft draft', draft.types = draft'.types → SameAnswer (f draft) (g draft')) :
    SameAnswer (get >>= f) (get >>= g) :=
  Alike.get.bind fun draft draft' hdraft => h draft draft' hdraft.types_eq

namespace Renderer

/-- A chain that comes to its end is the text of its blocks. -/
theorem chain_eq_of_ends {r : Renderer} {start : String}
    (h : (r.setting.workspace.chain start).2 = none) :
    r.chain start = (r.setting.workspace.chain start).1.mapM r.link >>= fun texts =>
      pure (String.join texts) := by
  unfold chain
  rcases hchain : r.setting.workspace.chain start with ⟨blocks, ends⟩
  obtain rfl : ends = none := by simpa [hchain] using h
  rfl

/-- Of disabled blocks only the identity is recorded. -/
theorem alike_links {r r' : Renderer} {blocks blocks' : List Block}
    (h : List.Forall₂ (fun child child' => child.id = child'.id ∧ child.disabled = child'.disabled ∧
      (child.disabled = false → child = child' ∧
        SameAnswer (r.statement child) (r'.statement child))) blocks blocks') :
    SameAnswer (blocks.mapM r.link) (blocks'.mapM r'.link) := by
  refine .mapM_forall₂ (h.imp ?_)
  rintro child child' ⟨hid, hdisabled, hsame⟩
  unfold link
  rw [← hdisabled, ← hid]
  split
  · exact (Draft.indistinct_sameWork.alike_record _).andThen (.pure (.refl _))
  · rename_i henabled
    obtain ⟨rfl, hstatement⟩ := hsame (by simpa using henabled)
    exact hstatement.bind_pure _

section

variable {pastRoots : Bool} {r r' : Renderer} (hrun : r.setting.SameLive pastRoots r'.setting)
variable {level level' : String → Nat} (hlevel : r.setting.workspace.Leveled level)
variable (hlevel' : r'.setting.workspace.Leveled level')

include hrun

/-- The chains that two matching blocks start are rendered alike if their blocks are. -/
theorem alike_chain {first first' : Block}
    (hfirst : Matched pastRoots r.setting.workspace r'.setting.workspace first first')
    (hgoes : first.disabled = false ∨ first.parent.isSome = true)
    (hlevel : r.setting.workspace.Leveled level) (hlevel' : r'.setting.workspace.Leveled level')
    (h : ∀ child, Shared pastRoots r.setting.workspace r'.setting.workspace child →
      level child.id ≤ level first.id → SameAnswer (r.statement child) (r'.statement child)) :
    SameAnswer (r.chain first.id) (r'.chain first'.id) := by
  obtain ⟨hends, hchain⟩ := hlevel.chain_spec hfirst.live.mem
  obtain ⟨hends', -⟩ := hlevel'.chain_spec hfirst.live'.mem
  have hmatched := (List.forall₂_and_left _ _).2
    ⟨hchain, hfirst.chain hrun.blocks hrun.valid hrun.valid' hgoes⟩
  have hlinks : SameAnswer ((r.setting.workspace.chain first.id).1.mapM r.link)
      ((r'.setting.workspace.chain first'.id).1.mapM r'.link) := by
    refine alike_links (hmatched.imp fun child child' hmember => ?_)
    obtain ⟨⟨-, hle⟩, hchild⟩ := hmember
    refine ⟨hchild.id_eq, hchild.disabled_eq, fun henabled => ?_⟩
    obtain rfl := hchild.eq_of_enabled henabled
    exact ⟨rfl, h child' (hchild.shared henabled) hle⟩
  rw [chain_eq_of_ends hends, chain_eq_of_ends hends']
  exact hlinks.bind_pure _

theorem alike_coerce (hlevel : r.setting.workspace.Leveled level)
    (hlevel' : r'.setting.workspace.Leveled level') (hjava : r.setting.target = .java)
    (block : Block) (socket : String) {child : Block}
    (hchild : Shared pastRoots r.setting.workspace r'.setting.workspace child) (expr : Expr) :
    SameAnswer (r.coerce block socket child expr) (r'.coerce block socket child expr) := by
  refine .get_bind fun draft draft' htypes => ?_
  dsimp only
  rw [htypes]
  refine .liftM_bind (StaticType.ofSocket_congr (hrun.parameters_eq hjava) _ _ _) fun expected => ?_
  split
  · exact .pure (.refl _)
  · split
    · exact .liftM_bind rfl fun _ => .pure (.refl _)
    · refine .liftM_bind
        (StaticType.ofBlock_eq_of_shared hrun.blocks hlevel hlevel' hchild _) fun found => ?_
      split <;> exact .pure (.refl _)

variable {block : Block} (hblock : Shared pastRoots r.setting.workspace r'.setting.workspace block)
include hblock

include hlevel hlevel'

theorem alike_isIntegral (socket : String) :
    SameAnswer (r.isIntegral block socket) (r'.isIntegral block socket) := by
  refine .get_bind fun draft draft' htypes => ?_
  rw [htypes]
  refine .liftM_bind (StaticType.ofChild_eq_of_shared hrun.blocks hlevel hlevel' hblock _ _) fun type => ?_
  exact .pure (.refl _)

theorem alike_dropsFraction : SameAnswer (r.dropsFraction block) (r'.dropsFraction block) := by
  have hintegral := alike_isIntegral hrun hlevel hlevel' hblock
  unfold dropsFraction
  rw [← hrun.target_eq]
  cases r.setting.target with
  | javaScript => exact .pure (.refl _)
  | java =>
    refine (hintegral "A").bind fun first first' hfirst => ?_
    obtain rfl := hfirst trivial
    split
    · exact hintegral "B"
    · exact .pure (.refl _)

/-- Two renderers that do the same for the live blocks inside a block agree about its sockets and
slots. -/
theorem parallelAt_of_shared
    (h : ∀ child, Shared pastRoots r.setting.workspace r'.setting.workspace child →
      level child.id < level block.id → SameAnswer (r.value child) (r'.value child) ∧
        SameAnswer (r.statement child) (r'.statement child)) :
    r.ParallelAt True (fun _ => Alike Draft.SameWork) r' block := by
  refine parallelAt_of_alike Draft.indistinct_sameWork hrun.target_eq hrun.hardware_eq
    (fun socket id hsocket => .inr ?_) (fun name start hslot => ?_)
    (alike_dropsFraction hrun hlevel hlevel' hblock)
  · obtain ⟨child, child', hget, hget', hmatched, hlt⟩ :=
      hblock.exists_child hrun.blocks hlevel (Block.mem_below_of_value hsocket)
    refine ⟨child, child', hget, hget', hmatched.kind_eq, hmatched.disabled_eq, fun henabled => ?_⟩
    have hchild := hmatched.shared henabled
    obtain rfl := hmatched.eq_of_enabled henabled
    exact ⟨rfl, (h child' hchild hlt).1, fun hjava =>
      alike_coerce hrun hlevel hlevel' hjava block socket hchild⟩
  · have hid := Block.mem_below_of_statement hslot
    obtain ⟨first, first', hget, hget', hmatched, hlt⟩ := hblock.exists_child hrun.blocks hlevel hid
    have hparent := parent_isSome_of_below hrun.valid hblock.live.mem hid hget
    have hchain := alike_chain hrun hmatched (.inr hparent) hlevel hlevel' fun child hchild hle =>
      (h child hchild (by omega)).2
    obtain rfl := id_of_get? hget
    rwa [← hmatched.id_eq] at hchain

end

end Renderer

namespace Setting

variable {pastRoots : Bool} {setting setting' : Setting}

/-- A block that is live in both workspaces is rendered alike. -/
theorem alike_renderer (hrun : setting.SameLive pastRoots setting') {level level' : String → Nat}
    (hlevel : setting.workspace.Leveled level) (hlevel' : setting'.workspace.Leveled level')
    {block : Block} (hblock : Shared pastRoots setting.workspace setting'.workspace block) :
    SameAnswer (setting.renderer.value block) (setting'.renderer.value block) ∧
      SameAnswer (setting.renderer.statement block) (setting'.renderer.statement block) := by
  induction hheight : level block.id using Nat.strongRecOn generalizing block with
  | ind height ih =>
    subst hheight
    have hat : setting.renderer.ParallelAt True (fun _ => Alike Draft.SameWork) setting'.renderer
        block := by
      refine Renderer.parallelAt_of_shared (by simpa using hrun) (by simpa using hlevel)
        (by simpa using hlevel') (by simpa using hblock) fun child hchild hlt => ?_
      exact ih _ hlt (by simpa using hchild) rfl
    obtain ⟨hvalue, hstatement⟩ := renderer_eq hlevel hblock.live.mem
    obtain ⟨hvalue', hstatement'⟩ := renderer_eq hlevel' hblock.live'.mem
    rw [hvalue, hvalue', hstatement, hstatement']
    exact ⟨hat.renderValue.alike Draft.indistinct_sameWork,
      hat.renderStatement.alike Draft.indistinct_sameWork⟩

/-- Settings with the same live blocks are rendered in parallel, root by root. -/
theorem parallelRoots_of_sameLive (hrun : setting.SameLive pastRoots setting') :
    setting.renderer.ParallelRoots True (fun _ => Alike Draft.SameWork) setting'.renderer := by
  obtain ⟨level, hlevel⟩ := exists_leveled_of_validate hrun.valid
  obtain ⟨level', hlevel'⟩ := exists_leveled_of_validate hrun.valid'
  have hrenderers : setting.renderer.setting.SameLive pastRoots setting'.renderer.setting := by
    simpa using hrun
  have hlevels : setting.renderer.setting.workspace.Leveled level := by simpa using hlevel
  have hlevels' : setting'.renderer.setting.workspace.Leveled level' := by simpa using hlevel'
  have hshared : ∀ root ∈ setting.renderer.setting.workspace.roots, root.disabled = false →
      Shared pastRoots setting.workspace setting'.workspace root := by
    intro root hroot henabled
    exact hrun.blocks.shared (live_of_mem_roots (by simpa using hroot)) henabled
  have hblock : ∀ {block : Block}, Shared pastRoots setting.workspace setting'.workspace block →
      SameAnswer (setting.renderer.value block) (setting'.renderer.value block) ∧
        SameAnswer (setting.renderer.statement block) (setting'.renderer.statement block) :=
    alike_renderer hrun hlevel hlevel'
  refine ⟨?_, hrenderers.variableNames_eq, hrenderers.options_eq, fun root hroot henabled => ?_,
    fun root hroot henabled => .inner ?_, fun root hroot henabled => .inner ?_⟩
  · refine hrenderers.blocks.roots.imp fun root root' hmatched => ?_
    cases hdisabled : root.disabled with
    | true => exact .leftOut hdisabled (hmatched.disabled_eq ▸ hdisabled) hmatched.id_eq
    | false =>
      obtain rfl := hmatched.eq_of_enabled hdisabled
      exact .same root'
  · refine Renderer.parallelAt_of_shared hrenderers hlevels hlevels'
      (by simpa using hshared root hroot henabled) fun child hchild _ => hblock (by simpa using hchild)
  · refine Renderer.alike_chain hrenderers ?_ (.inl henabled) hlevels hlevels'
      (fun child hchild _ => (hblock (by simpa using hchild)).2)
    simpa using (hshared root hroot henabled).matched
  · exact (hblock (hshared root hroot henabled)).1

end Setting

end RobotBlocks
