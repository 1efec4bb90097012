import RobotBlocks.Proofs.StaticType.Depth
import RobotBlocks.Proofs.Workspace.Live

/-!
# Static types of live blocks

By the same table, an enabled block has the same static type in two workspaces with the same live
blocks: a type never comes from a disabled block, and what is dead is below one.
-/

set_option autoImplicit false

namespace RobotBlocks

open List

namespace StaticType

open Workspace

section

variable {pastRoots : Bool} {w w' : Workspace} (hsame : SameLive pastRoots w w')
variable {level level' : String → Nat} (hlevel : w.Leveled level) (hlevel' : w'.Leveled level')
variable {block : Block} (hblock : Shared pastRoots w w' block)

include hsame hlevel hblock

theorem inSocket_eq_of_shared {typeOf typeOf' : Block → Answer}
    (h : ∀ child, Shared pastRoots w w' child → level child.id < level block.id →
      typeOf child = typeOf' child) (socket : String) :
    inSocket w typeOf block socket = inSocket w' typeOf' block socket := by
  cases hsocket : block.values.get? socket with
  | none => rw [inSocket_of_get?_eq_none hsocket, inSocket_of_get?_eq_none hsocket]
  | some id =>
    obtain ⟨child, child', hget, hget', hmatched, hlt⟩ :=
      hblock.exists_child hsame hlevel (Block.mem_below_of_value hsocket)
    rw [inSocket_of_get?_eq_some hsocket hget, inSocket_of_get?_eq_some hsocket hget',
      ← hmatched.disabled_eq]
    split
    · rfl
    · rename_i henabled
      have henabled : child.disabled = false := by simpa using henabled
      obtain rfl := hmatched.eq_of_enabled henabled
      exact h child' (hmatched.shared henabled) hlt

include hlevel'

theorem ofBlock_eq_of_shared (table : TypeTable) :
    ofBlock w table block = ofBlock w' table block := by
  induction hheight : level block.id using Nat.strongRecOn generalizing block with
  | ind height ih =>
    subst hheight
    rw [ofBlock_eq_step hlevel table hblock.live.mem, ofBlock_eq_step hlevel' table hblock.live'.mem]
    refine step_congr (inSocket_eq_of_shared hsame hlevel hblock fun child hchild hlt => ?_)
    exact ih _ hlt hchild rfl

theorem ofChild_eq_of_shared (table : TypeTable) (socket : String) :
    ofChild w table block socket = ofChild w' table block socket :=
  inSocket_eq_of_shared hsame hlevel hblock
    (fun _ hchild _ => ofBlock_eq_of_shared hsame hlevel hlevel' hchild table) socket

end

/-- The type that a socket expects depends on the workspace only by the parameters of procedures. -/
theorem ofSocket_congr {w w' : Workspace} (h : ∀ name, w.parameters? name = w'.parameters? name)
    (table : TypeTable) (block : Block) (socket : String) :
    ofSocket w table block socket = ofSocket w' table block socket := by
  unfold ofSocket
  simp only [h]

end StaticType

/-! ## Inference -/

/-- Inference, or the look-up of the parameters of a procedure, asks the block for something: it
defines a procedure, or it is enabled and gives values to variables. -/
def Block.speaks (block : Block) : Bool :=
  match block.kind with
  | .procedureDef _ => true
  | .variablesSet | .procedureCall _ => !block.disabled
  | _ => false

/-- No dead block has anything to say. -/
def Workspace.Silent (pastRoots : Bool) (w : Workspace) : Prop :=
  ∀ block ∈ w.blocks, block.speaks = true → w.Live pastRoots block

namespace Workspace

variable {pastRoots : Bool} {w w' : Workspace}

/-- The blocks that have something to say, in the order of their identities. -/
def speakers (w : Workspace) : List Block := w.byId.filter Block.speaks

theorem forall₂_speakers (hsame : SameLive pastRoots w w') (hsilent : w.Silent pastRoots)
    (hsilent' : w'.Silent pastRoots) :
    List.Forall₂ (Matched pastRoots w w') w.speakers w'.speakers := by
  have hmem : ∀ {v : Workspace}, v.Silent pastRoots → ∀ block, block ∈ v.speakers ↔
      v.Live pastRoots block ∧ block.speaks = true := by
    intro v hv block
    rw [speakers, mem_filter, byId, mem_mergeSort]
    constructor
    · rintro ⟨hblock, hspeaks⟩
      exact ⟨hv block hblock hspeaks, hspeaks⟩
    · rintro ⟨hlive, hspeaks⟩
      exact ⟨hlive.mem, hspeaks⟩
  have hnodup : ∀ v : Workspace, v.speakers.Nodup := fun v =>
    ((mergeSort_perm _ _).nodup_iff.2 v.distinct.of_map).filter _
  refine hsame.forall₂_of_sorted (fun a b => a.id ≤ b.id) ?_ ?_ (fun block => ?_)
    ((pairwise_byId w).filter _) ((pairwise_byId w').filter _) (hnodup w) (hnodup w')
    (hmem hsilent) (hmem hsilent')
  · intro a b hab
    simpa using hab
  · exact String.le_antisymm
  · simp [Block.speaks]

theorem parameters?_eq_find?_speakers (w : Workspace) (procedure : String) :
    w.parameters? procedure = (w.speakers.find? (fun block => block.kind.isDefinition &&
      (block.procedureName.toOption = some procedure))).map Block.procedureArguments := by
  unfold parameters? speakers
  rw [find?_filter]
  congr 2
  funext block
  cases hkind : block.kind <;> simp [Block.speaks, BlockKind.isDefinition, hkind]

theorem parameters?_eq_of_silent (hsame : SameLive pastRoots w w') (hsilent : w.Silent pastRoots)
    (hsilent' : w'.Silent pastRoots) (procedure : String) :
    w.parameters? procedure = w'.parameters? procedure := by
  have hmatched := forall₂_speakers hsame hsilent hsilent'
  rw [parameters?_eq_find?_speakers, parameters?_eq_find?_speakers]
  generalize w.speakers = blocks, w'.speakers = blocks' at hmatched
  induction hmatched with
  | nil => rfl
  | cons hblock _ ih =>
    have hname := congrArg Block.procedureName hblock.trimmed_eq
    have harguments := congrArg Block.procedureArguments hblock.trimmed_eq
    rw [Block.procedureName_trimmed, Block.procedureName_trimmed] at hname
    rw [Block.procedureArguments_trimmed, Block.procedureArguments_trimmed] at harguments
    rw [find?_cons, find?_cons, hblock.kind_eq, hname]
    split
    · rw [Option.map_some, Option.map_some, harguments]
    · exact ih

end Workspace

namespace Inference

open Workspace

variable {pastRoots : Bool} {w w' : Workspace}

section

variable (hsame : SameLive pastRoots w w') {level level' : String → Nat} (hlevel : w.Leveled level)
variable (hlevel' : w'.Leveled level') {block : Block} (hblock : Shared pastRoots w w' block)

include hsame hlevel hlevel' hblock

theorem childType_eq_of_shared (socket : String) :
    childType w block socket = childType w' block socket := by
  unfold childType
  simp only [StaticType.ofChild_eq_of_shared hsame hlevel hlevel' hblock]

theorem addValues_eq_of_shared (hparameters : ∀ name, w.parameters? name = w'.parameters? name) :
    addValues w block = addValues w' block := by
  have hchildType := childType_eq_of_shared hsame hlevel hlevel' hblock
  have harguments : ∀ index parameters,
      addArguments w block index parameters = addArguments w' block index parameters := by
    intro index parameters
    induction parameters generalizing index with
    | nil => rfl
    | cons parameter rest ih =>
      unfold addArguments
      simp only [hchildType, ih]
  unfold addValues
  simp only [hchildType, harguments, hparameters]

theorem addResult_eq_of_shared : addResult w block = addResult w' block := by
  unfold addResult
  simp only [childType_eq_of_shared hsame hlevel hlevel' hblock]

end

theorem addValues_eq_pure (w : Workspace) (block : Block) (hspeaks : block.speaks = false)
    (henabled : block.disabled = false) : addValues w block = pure () := by
  unfold addValues
  cases hkind : block.kind <;> simp_all [Block.speaks]

theorem addResult_eq_pure (w : Workspace) (block : Block) (hspeaks : block.speaks = false)
    (_ : block.disabled = false) : addResult w block = pure () := by
  unfold addResult
  cases hkind : block.kind <;> simp_all [Block.speaks]

/-- Blocks that have nothing to say may be left out. -/
theorem forM_eq_forM_filter {step : Block → Inference PUnit}
    (hsilent : ∀ block, block.speaks = false → block.disabled = false → step block = pure ())
    (blocks : List Block) :
    (blocks.filter (fun block => !block.disabled)).forM step =
      ((blocks.filter Block.speaks).filter (fun block => !block.disabled)).forM step := by
  induction blocks with
  | nil => rfl
  | cons block rest ih =>
    rw [forM_eq_forM] at ih ⊢
    cases hdisabled : block.disabled with
    | true =>
      rw [filter_cons_of_neg (by simp [hdisabled]), ih]
      cases hspeaks : block.speaks with
      | true => rw [filter_cons_of_pos hspeaks, filter_cons_of_neg (by simp [hdisabled])]
      | false => rw [filter_cons_of_neg (by simp [hspeaks])]
    | false =>
      rw [filter_cons_of_pos (by simp [hdisabled]), forM_cons, ih]
      cases hspeaks : block.speaks with
      | true =>
        rw [filter_cons_of_pos hspeaks, filter_cons_of_pos (by simp [hdisabled]), forM_cons]
      | false =>
        rw [filter_cons_of_neg (by simp [hspeaks]), hsilent block hspeaks hdisabled, pure_bind]

theorem forM_enabled_eq {step step' : Block → Inference PUnit}
    (heq : ∀ block, Shared pastRoots w w' block → step block = step' block)
    {blocks blocks' : List Block} (h : List.Forall₂ (Matched pastRoots w w') blocks blocks') :
    (blocks.filter (fun block => !block.disabled)).forM step =
      (blocks'.filter (fun block => !block.disabled)).forM step' := by
  induction h with
  | nil => rfl
  | @cons block block' rest rest' hblock _ ih =>
    cases hdisabled : block.disabled with
    | true => simpa [hdisabled, ← hblock.disabled_eq] using ih
    | false =>
      obtain rfl := hblock.eq_of_enabled hdisabled
      simp only [filter_cons, hdisabled, Bool.not_false, if_true, forM_eq_forM, forM_cons] at ih ⊢
      rw [heq block' (hblock.shared hdisabled), ih]

/-- Inference does the same in two workspaces with the same live blocks if no dead block has anything
to say. -/
theorem inferAll_eq_of_silent (hsame : SameLive pastRoots w w') (hvalid : w.validate = .ok ())
    (hvalid' : w'.validate = .ok ()) (hnames : w.variableNames = w'.variableNames)
    (hsilent : w.Silent pastRoots) (hsilent' : w'.Silent pastRoots) : inferAll w = inferAll w' := by
  obtain ⟨level, hlevel⟩ := exists_leveled_of_validate hvalid
  obtain ⟨level', hlevel'⟩ := exists_leveled_of_validate hvalid'
  have hparameters := parameters?_eq_of_silent hsame hsilent hsilent'
  have hforM : ∀ step step' : Block → Inference PUnit,
      (∀ block, block.speaks = false → block.disabled = false → step block = pure ()) →
      (∀ block, block.speaks = false → block.disabled = false → step' block = pure ()) →
      (∀ block, Shared pastRoots w w' block → step block = step' block) →
      (w.byId.filter (fun block => !block.disabled)).forM step =
        (w'.byId.filter (fun block => !block.disabled)).forM step' := by
    intro step step' hstep hstep' heq
    rw [forM_eq_forM_filter hstep, forM_eq_forM_filter hstep']
    exact forM_enabled_eq heq (forall₂_speakers hsame hsilent hsilent')
  have hvalues := hforM (addValues w) (addValues w') (addValues_eq_pure w) (addValues_eq_pure w')
    fun block hblock => addValues_eq_of_shared hsame hlevel hlevel' hblock hparameters
  have hresults := hforM (addResult w) (addResult w') (addResult_eq_pure w) (addResult_eq_pure w')
    fun block hblock => addResult_eq_of_shared hsame hlevel hlevel' hblock
  unfold inferAll
  dsimp only
  rw [hvalues, hresults, hnames]

end Inference

end RobotBlocks
