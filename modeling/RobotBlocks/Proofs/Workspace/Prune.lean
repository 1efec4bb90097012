import RobotBlocks.Proofs.Workspace.Order

/-!
# Pruned workspaces

To prune a workspace is to disable some of its blocks that hang somewhere. Nothing else changes: all
blocks are found where they were and in the same order, chains of statements have the same members,
and the roots are the same blocks. A block that is enabled after pruning is the block that was there
before (`Block.pruned_eq_of_enabled`).
-/

set_option autoImplicit false

namespace RobotBlocks

open List

namespace Block

variable {off : String → Bool} {block : Block}

/-- The block, disabled if it hangs somewhere and is to be switched off. -/
def pruned (off : String → Bool) (block : Block) : Block :=
  if block.parent.isSome && off block.id then { block with disabled := true } else block

@[simp] theorem id_pruned : (block.pruned off).id = block.id := by
  unfold pruned
  split <;> rfl

@[simp] theorem next_pruned : (block.pruned off).next = block.next := by
  unfold pruned
  split <;> rfl

@[simp] theorem parent_pruned : (block.pruned off).parent = block.parent := by
  unfold pruned
  split <;> rfl

@[simp] theorem kind_pruned : (block.pruned off).kind = block.kind := by
  unfold pruned
  split <;> rfl

@[simp] theorem procedureName_pruned : (block.pruned off).procedureName = block.procedureName := by
  unfold pruned
  split <;> rfl

@[simp] theorem procedureArguments_pruned :
    (block.pruned off).procedureArguments = block.procedureArguments := by
  unfold pruned
  split <;> rfl

theorem pruned_eq_of_enabled (h : (block.pruned off).disabled = false) : block.pruned off = block := by
  unfold pruned at h ⊢
  split
  · rename_i hoff
    rw [if_pos hoff] at h
    cases h
  · rfl

theorem pruned_of_parent_eq_none (h : block.parent = none) : block.pruned off = block := by
  unfold pruned
  rw [h]
  rfl

end Block

namespace Workspace

/-- The workspace with some of the blocks that hang somewhere disabled. -/
def prune (w : Workspace) (off : String → Bool) : Workspace where
  blocks := w.blocks.map (Block.pruned off)
  variableNames := w.variableNames
  distinct := by
    rw [map_map]
    simpa [Function.comp_def] using w.distinct

variable {w : Workspace} {off : String → Bool}

theorem prune_none (w : Workspace) : w.prune (fun _ => false) = w := by
  have hblocks : w.blocks.map (Block.pruned fun _ => false) = w.blocks := by
    refine (map_congr_left fun block _ => ?_).trans (map_id _)
    simp [Block.pruned]
  cases w
  simpa [prune] using hblocks

@[simp] theorem size_prune : (w.prune off).size = w.size := length_map _

theorem get?_prune (id : String) : (w.prune off).get? id = (w.get? id).map (Block.pruned off) := by
  unfold get? prune
  rw [find?_map]
  simp only [Function.comp_def, Block.id_pruned]

theorem byId_prune : (w.prune off).byId = w.byId.map (Block.pruned off) := by
  unfold byId prune
  exact (map_mergeSort fun a _ b _ => by simp).symm

theorem roots_prune : (w.prune off).roots = w.roots := by
  have hfilter : (w.prune off).blocks.filter (fun block => block.parent.isNone) =
      w.blocks.filter (fun block => block.parent.isNone) := by
    have hkept : ∀ block ∈ w.blocks.filter (fun block => block.parent.isNone),
        block.pruned off = id block := by
      intro block hblock
      refine Block.pruned_of_parent_eq_none ?_
      simpa using (mem_filter.1 hblock).2
    unfold prune
    rw [filter_map]
    simpa [Function.comp_def] using map_congr_left hkept
  unfold roots
  rw [hfilter]

theorem chainFrom_prune (steps : Nat) (seen : List String) (start : Option String) :
    (w.prune off).chainFrom steps seen start =
      ((w.chainFrom steps seen start).1.map (Block.pruned off), (w.chainFrom steps seen start).2) := by
  induction steps generalizing seen start with
  | zero => cases start <;> rfl
  | succ steps ih =>
    cases start with
    | none => rfl
    | some id =>
      rw [chainFrom, chainFrom]
      by_cases hseen : seen.contains id = true
      · rw [if_pos hseen, if_pos hseen]
        rfl
      · rw [if_neg hseen, if_neg hseen]
        unfold Workspace.block
        rw [get?_prune]
        cases w.get? id with
        | none => rfl
        | some block => simp [ih]

theorem chain_prune (start : String) :
    (w.prune off).chain start =
      ((w.chain start).1.map (Block.pruned off), (w.chain start).2) := by
  unfold chain
  rw [size_prune, chainFrom_prune]

theorem parameters?_prune (procedure : String) :
    (w.prune off).parameters? procedure = w.parameters? procedure := by
  unfold parameters?
  rw [byId_prune, find?_map, Option.map_map]
  simp [Function.comp_def]

end Workspace

end RobotBlocks
