import RobotBlocks.Proofs.Render.TargetWalk

/-!
# Targets in parallel

Both targets render a block in parallel for two renderers that agree about its sockets and slots
(`Renderer.ParallelAt.renderValue`, `Renderer.ParallelAt.renderStatement`), and whole programs for two
renderers that agree about their roots (`Renderer.ParallelRoots.program`).
-/

set_option autoImplicit false

namespace RobotBlocks

variable {exact : Prop} {inner : Relator}
variable {r r' : Renderer} {block : Block}

namespace Render

theorem parallel_variableIdentifier (name : String) :
    InStep exact inner (variableIdentifier name) (variableIdentifier name) :=
  .identifierFor (.refl _) (.refl _)

theorem parallel_declareDevice (simple className device : String) :
    InStep exact inner (declareDevice simple className device)
      (declareDevice simple className device) := by
  refine (Parallel.identifierFor (.refl _) (.refl _)).bind fun identifier identifier' hidentifier => ?_
  refine (Parallel.importClassType (.refl _)).andThen ?_
  refine (Parallel.declare (hidentifier.map _) ?_).andThen ?_
  · exact hidentifier.map fun identifier => "private " ++ simple ++ " " ++ identifier ++ ";"
  refine (Parallel.declare (hidentifier.map _) ?_).andThen (.pure hidentifier)
  exact fun hexact => by rw [hidentifier hexact]

theorem Step.parallel {α : Type} {x : Render α} (h : Step x) : InStep exact inner x x := by
  cases h with
  | record => exact .record (.refl _)
  | identifierFor => exact .identifierFor (.refl _) (.refl _)
  | distinctName base => exact .distinctName base
  | importClassType => exact .importClassType (.refl _)
  | importKnown simple => exact .importKnown simple

end Render

/-- Two renderers that agree about what stands in a block walk through it in parallel. -/
theorem Walk.parallel {stops : List Stop} {α : Type} {x y : Render α}
    (h : Walk exact r r' block block stops x y) (hat : r.ParallelAt exact inner r' block) :
    InStep exact inner x y := by
  induction h with
  | pure hab => exact .pure hab
  | throw _ fault hfault => exact .throw fault hfault
  | bind _ _ hfirst hrest => exact hfirst.bind hrest
  | look _ hrest => exact Parallel.get.bind hrest
  | own hstep => exact hstep.parallel
  | importIfKnown htype => exact .importIfKnown htype
  | device => exact Render.parallel_declareDevice _ _ _
  | socket name fallback => exact hat.operandOr name fallback
  | slot name => exact hat.slot name
  | quotient => exact hat.quotient

namespace Renderer.ParallelAt

variable (h : r.ParallelAt exact inner r' block)

include h

theorem aligned : r.Aligned exact r' block ⟨block.values, block.statements, block.parent⟩ :=
  ⟨h.target_eq, h.hardware_eq, fun _ _ => h.firstIsText⟩

theorem renderValue : InStep exact inner (r.renderValue block) (r'.renderValue block) := by
  by_cases hsleep : ∃ typed, block.kind = .opMode (.sleep typed)
  · obtain ⟨typed, hkind⟩ := hsleep
    unfold Renderer.renderValue Script.value Compiled.value
    rw [h.target_eq, hkind]
    split <;> exact .pure (.refl _)
  · exact (h.aligned.renderValue (not_exists.1 hsleep)).parallel h

theorem renderStatement : InStep exact inner (r.renderStatement block) (r'.renderStatement block) :=
  h.aligned.renderStatement.parallel h

end Renderer.ParallelAt

/-! ## Programs -/

/-- Two roots are one block, or both are left out under one identity. -/
inductive Block.SameRoot : Block → Block → Prop
  | same (root : Block) : SameRoot root root
  | leftOut {root root' : Block} : root.disabled = true → root'.disabled = true →
      root.id = root'.id → SameRoot root root'

/-- Two renderers agree about the roots of their workspaces. -/
structure Renderer.ParallelRoots (exact : Prop)
    (inner : Relator) (r r' : Renderer) :
    Prop where
  roots : List.Forall₂ Block.SameRoot r.setting.workspace.roots r'.setting.workspace.roots
  variableNames_eq : r.setting.workspace.variableNames = r'.setting.workspace.variableNames
  options_eq : r.setting.options = r'.setting.options
  parallelAt (root : Block) : root ∈ r.setting.workspace.roots → root.disabled = false →
    r.ParallelAt exact inner r' root
  chain (root : Block) : root ∈ r.setting.workspace.roots → root.disabled = false →
    InStep exact inner (r.chain root.id) (r'.chain root.id)
  value (root : Block) : root ∈ r.setting.workspace.roots → root.disabled = false →
    InStep exact inner (r.value root) (r'.value root)

theorem Block.sameRoots_of_eq {roots roots' : List Block} (h : roots = roots') :
    List.Forall₂ Block.SameRoot roots roots' :=
  h ▸ List.forall₂_same.2 fun root _ => .same root

/-- What holds of every two roots at one place holds of the lists of roots. -/
theorem Renderer.ParallelRoots.forall₂ {P : Block → Block → Prop}
    (h : r.ParallelRoots exact inner r')
    (himp : ∀ root root', root ∈ r.setting.workspace.roots → root.SameRoot root' → P root root') :
    List.Forall₂ P r.setting.workspace.roots r'.setting.workspace.roots := by
  have hroots := (List.forall₂_and_left _ _).2 ⟨fun root hroot => hroot, h.roots⟩
  exact hroots.imp fun root root' hboth => himp root root' hboth.1 hboth.2

variable {root : Block}

namespace Script

theorem parallel_function (h : r.ParallelAt exact inner r' block)
    (hdefinition : block.kind.isDefinition = true) :
    InStep exact inner (function r block) (function r' block) := by
  obtain ⟨returns, hkind⟩ := BlockKind.exists_procedureDef hdefinition
  exact (walk_function h.aligned hkind).parallel h

/-- The section of a root, if the renderers agree about it. -/
theorem parallel_section?_same (hat : root.disabled = false → r.ParallelAt exact inner r' root)
    (hchain : root.disabled = false → InStep exact inner (r.chain root.id) (r'.chain root.id))
    (hvalue : root.disabled = false → InStep exact inner (r.value root) (r'.value root)) :
    InStep exact inner (section? r root) (section? r' root) := by
  unfold section?
  split
  · exact (Parallel.record (.refl _)).andThen (.pure (.refl _))
  · rename_i henabled
    have henabled : root.disabled = false := by simpa using henabled
    split
    · next hdefinition => exact (parallel_function (hat henabled) hdefinition).bind_pure _
    · split
      · exact (hchain henabled).bind_pure _
      · exact (hvalue henabled).bind_pure _

theorem parallel_section? (h : r.ParallelRoots exact inner r') {root' : Block}
    (hroot : root ∈ r.setting.workspace.roots) (hsame : root.SameRoot root') :
    InStep exact inner (section? r root) (section? r' root') := by
  cases hsame with
  | leftOut hdisabled hdisabled' hid =>
    unfold section?
    rw [if_pos hdisabled, if_pos hdisabled', hid]
    exact (Parallel.record (.refl _)).andThen (.pure (.refl _))
  | same =>
    exact parallel_section?_same (h.parallelAt root hroot) (h.chain root hroot) (h.value root hroot)

theorem parallel_program (h : r.ParallelRoots exact inner r') :
    InStep exact inner (program r) (program r') := by
  unfold program
  rw [← h.variableNames_eq]
  refine .bind (.mapM_forall₂ (h.forall₂ fun _ _ hroot => parallel_section? h hroot))
    fun sections sections' hsections => ?_
  refine .bind (.mapM _ fun name _ => (Render.parallel_variableIdentifier name).bind_pure _)
    fun lines lines' hlines => ?_
  exact .pure fun hexact => by rw [hsections hexact, hlines hexact]

end Script

namespace Compiled

theorem parallel_method (h : r.ParallelAt exact inner r' block)
    (hdefinition : block.kind.isDefinition = true) :
    InStep exact inner (method r block) (method r' block) := by
  obtain ⟨returns, hkind⟩ := BlockKind.exists_procedureDef hdefinition
  exact (walk_method h.aligned hkind).parallel h

/-- Two collections of procedures have the same main procedure, an enabled root, and methods that
agree. -/
structure Procedures.Match (exact : Prop) (roots : List Block) (procedures procedures' : Procedures) :
    Prop where
  main_eq : procedures.main = procedures'.main
  main_mem (block : Block) : procedures.main = some block → block ∈ roots ∧ block.disabled = false
  methods : Agree exact procedures.methods procedures'.methods

theorem Procedures.match_none (roots : List Block) : Procedures.Match exact roots {} {} :=
  ⟨rfl, by simp, .refl _⟩

/-- A root and its counterpart are added in parallel. -/
theorem parallel_addRoot (h : r.ParallelRoots exact inner r') {root' : Block}
    (hroot : root ∈ r.setting.workspace.roots) (hsame : root.SameRoot root')
    {procedures procedures' : Procedures}
    (hmatch : procedures.Match exact r.setting.workspace.roots procedures') :
    Parallel exact inner (Procedures.Match exact r.setting.workspace.roots)
      (addRoot r procedures root) (addRoot r' procedures' root') := by
  unfold addRoot
  cases hsame with
  | leftOut hdisabled hdisabled' hid =>
    rw [if_pos hdisabled, if_pos hdisabled', hid]
    exact (Parallel.record (.refl _)).andThen (.pure hmatch)
  | same =>
    split
    · exact (Parallel.record (.refl _)).andThen (.pure hmatch)
    · rename_i henabled
      have henabled : root.disabled = false := by simpa using henabled
      split
      · rename_i hdefinition
        refine .liftM_bind root.own_procedureName fun name => ?_
        rw [← hmatch.main_eq]
        split
        · refine (parallel_method (h.parallelAt root hroot henabled) hdefinition).bind
            fun text text' htext => ?_
          refine .pure ⟨rfl, hmatch.main_mem, fun hexact => ?_⟩
          rw [hmatch.methods hexact, htext hexact]
        · split
          · exact (Parallel.record (.refl _)).andThen (.pure hmatch)
          · refine .pure ⟨rfl, ?_, hmatch.methods⟩
            rintro _ ⟨⟩
            exact ⟨hroot, henabled⟩
      · exact (Parallel.record (.refl _)).andThen (.pure hmatch)

theorem parallel_mainParts {main : Option Block}
    (h : ∀ block, main = some block → r.ParallelAt exact inner r' block) :
    InStep exact inner (mainParts r main) (mainParts r' main) := by
  cases main with
  | none => exact (Parallel.record (.refl _)).andThen (.pure (.refl _))
  | some block => exact ((h block rfl).slot _).bind_pure _

theorem parallel_annotations (className : String) (registration : Registration) :
    InStep exact inner (annotations className registration)
      (annotations className registration) := by
  refine (Parallel.importKnown _).andThen ?_
  dsimp only
  split
  · exact .pure (.refl _)
  · exact (Parallel.importKnown _).andThen (.pure (.refl _))

theorem parallel_variableField (name : String) :
    InStep exact inner (variableField name) (variableField name) := by
  refine (Render.parallel_variableIdentifier name).bind fun identifier identifier' hidentifier => ?_
  refine Parallel.get.bind fun draft draft' hdraft => ?_
  have htype : Agree exact (draft.types.variableType name) (draft'.types.variableType name) :=
    fun hexact => by rw [(hdraft hexact).types_eq]
  refine (Parallel.importIfKnown htype).andThen ?_
  exact .pure fun hexact => by rw [htype hexact, hidentifier hexact]

theorem parallel_renderParts (h : r.ParallelRoots exact inner r') (registration : Registration) :
    InStep exact inner (renderParts r registration)
      (renderParts r' registration) := by
  unfold renderParts
  rw [← h.variableNames_eq, ← h.options_eq]
  refine .bind (.foldlM (h.forall₂ fun _ _ hroot hsame _ _ => parallel_addRoot h hroot hsame)
    (Procedures.match_none _)) fun procedures procedures' hmatch => ?_
  rw [← hmatch.main_eq]
  have hmain : ∀ block, procedures.main = some block → r.ParallelAt exact inner r' block := by
    intro block hblock
    obtain ⟨hroot, henabled⟩ := hmatch.main_mem block hblock
    exact h.parallelAt block hroot henabled
  refine (parallel_mainParts hmain).bind fun parts parts' hparts => ?_
  refine (Parallel.importKnown _).andThen ?_
  refine (parallel_annotations _ registration).bind fun texts texts' htexts => ?_
  refine .bind (.mapM _ fun name _ => parallel_variableField name)
    fun fields fields' hfields => .pure fun hexact => ?_
  rw [hmatch.methods hexact, hparts hexact, htexts hexact, hfields hexact]

/-- What a class does besides its parts: it may refuse its name, and it hands over what was
collected. -/
theorem parallel_program (h : r.ParallelRoots exact inner r') (registration : Registration)
    (hname : ∀ name, inner PUnit (Agree exact) (throw (.badClassName name))
      (throw (.badClassName name)))
    (hflush : inner Collected (Agree exact) Render.flush Render.flush) :
    InStep exact inner (program r registration) (program r' registration) := by
  have hcollect : InStep exact inner (collect r registration)
      (collect r' registration) := by
    refine (parallel_renderParts h registration).bind fun parts parts' hparts => ?_
    refine .bind (.inner hflush) fun collected collected' hcollected => .pure fun hexact => ?_
    rw [hparts hexact, hcollected hexact]
  unfold program
  rw [← h.options_eq]
  dsimp only
  split
  · refine .bind (R := Agree exact) (.inner (hname _)) fun _ _ _ => ?_
    exact hcollect.bind_pure _
  · exact hcollect.bind_pure _

end Compiled

end RobotBlocks
