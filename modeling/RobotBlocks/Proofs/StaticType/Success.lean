import RobotBlocks.Proofs.StaticType.Depth
import RobotBlocks.Proofs.Workspace.Prune

/-!
# When static types are found

Whether the static type of a block can be found does not depend on the table of types: it needs some
of the fields of the block, and the types in some of its sockets (`known_step_iff`). Both stay when a
workspace is pruned, so a type that was found is found in the pruned workspace too, by any table
(`known_within_prune`). Inference goes through fewer blocks of the pruned workspace, and it ends well
there if it did before (`Inference.sure_inferAll_prune`).
-/

set_option autoImplicit false

namespace RobotBlocks

open Known

/-- What the static type of a block needs, if it is known which sockets have one. -/
def Block.TypeNeeds (block : Block) (ready : String → Prop) : Prop :=
  match block.kind with
  | .mathNumber => Known block.literal
  | .mathArithmetic =>
    block.field? "OP" = some "POWER" ∨ block.field? "OP" = some "DIVIDE" ∨ (ready "A" ∧ ready "B")
  | .mathSingle =>
    block.field? "OP" = some "NEG" ∨ block.field? "OP" = some "ABS" → ready "NUM"
  | .variablesGet => Known (block.requiredField "VAR")
  | .procedureCall true => Known block.procedureName
  | .logicTernary => ready "THEN" ∧ ready "ELSE"
  | _ => Known (StaticType.stated block)

theorem Block.TypeNeeds.mono {block : Block} {ready ready' : String → Prop}
    (h : block.TypeNeeds ready) (himp : ∀ socket, ready socket → ready' socket) :
    block.TypeNeeds ready' := by
  unfold TypeNeeds at h ⊢
  split at h
  · exact h
  · exact h.imp_right (.imp_right (.imp (himp "A") (himp "B")))
  · exact fun hop => himp "NUM" (h hop)
  · exact h
  · exact h
  · exact h.imp (himp "THEN") (himp "ELSE")
  · exact h

namespace StaticType

section

variable {w : Workspace} {block : Block} {table : TypeTable} {typeOf : Block → Answer}

/-- One step finds a type exactly if it finds those that it needs. -/
theorem known_step_iff :
    Known (step w table typeOf block) ↔
      block.TypeNeeds fun socket => Known (inSocket w typeOf block socket) := by
  unfold step numericInSocket Block.TypeNeeds
  cases block.kind with
  | mathNumber => exact bind_pure_iff
  | mathArithmetic =>
    dsimp only
    split
    · rename_i hop
      have hop' : block.field? "OP" = some "POWER" ∨ block.field? "OP" = some "DIVIDE" := by
        simpa using hop
      exact iff_of_true (.ok _) (hop'.imp_right .inl)
    · rename_i hop
      have hop' : ¬ block.field? "OP" = some "POWER" ∧ ¬ block.field? "OP" = some "DIVIDE" := by
        simpa using hop
      rw [bind_iff_and fun _ => bind_pure_iff, bind_pure_iff, bind_pure_iff]
      exact ⟨fun h => .inr (.inr h), fun h => (h.resolve_left hop'.1).resolve_left hop'.2⟩
  | mathSingle =>
    dsimp only
    split
    · rename_i hop
      have hop' : block.field? "OP" = some "NEG" ∨ block.field? "OP" = some "ABS" := by
        simpa using hop
      rw [bind_pure_iff]
      exact ⟨fun h _ => h, fun h => h hop'⟩
    · rename_i hop
      have hop' : ¬ (block.field? "OP" = some "NEG" ∨ block.field? "OP" = some "ABS") := by
        simpa using hop
      exact iff_of_true (.ok _) fun h => absurd h hop'
  | variablesGet => exact bind_pure_iff
  | procedureCall returns =>
    cases returns with
    | true => exact bind_pure_iff
    | false => exact Iff.rfl
  | logicTernary =>
    refine bind_iff_and fun yes => ?_
    rw [bind_iff_and (p := True), and_true]
    intro no
    split <;> exact iff_true_intro (.pure _)
  | _ => exact Iff.rfl

end

/-! ## Pruning -/

section

variable {w : Workspace} {off : String → Bool} {block : Block} {table : TypeTable}
variable {socket : String}

theorem known_inSocket_prune {typeOf typeOf' : Block → Answer}
    (h : ∀ child : Block, Known (typeOf child) → Known (typeOf' child))
    (hknown : Known (inSocket w typeOf block socket)) :
    Known (inSocket (w.prune off) typeOf' block socket) := by
  refine known_inSocket fun id hsocket => ?_
  cases hget : w.get? id with
  | none =>
    rw [inSocket_of_dangling hsocket hget] at hknown
    obtain ⟨type, htype⟩ := hknown
    cases htype
  | some child =>
    refine ⟨child.pruned off, by rw [Workspace.get?_prune, hget, Option.map_some], ?_⟩
    intro henabled
    have hsame := Block.pruned_eq_of_enabled henabled
    rw [hsame] at henabled ⊢
    rw [inSocket_of_get?_eq_some hsocket hget, if_neg (by simp [henabled])] at hknown
    exact h child hknown

theorem known_within_prune {depth : Nat} (h : Known (within w table depth block))
    (table' : TypeTable) : Known (within (w.prune off) table' depth block) := by
  induction depth generalizing block with
  | zero =>
    obtain ⟨type, htype⟩ := h
    cases htype
  | succ depth ih =>
    refine known_step_iff.2 ((known_step_iff.1 h).mono fun socket => ?_)
    exact known_inSocket_prune fun child => ih

theorem known_ofChild_prune (h : Known (ofChild w table block socket)) (table' : TypeTable) :
    Known (ofChild (w.prune off) table' block socket) := by
  refine known_inSocket_prune (fun child hchild => ?_) h
  unfold ofBlock
  rw [Workspace.size_prune]
  exact known_within_prune hchild table'

/-- Whether the type that a socket expects is known depends on the block only. -/
theorem known_ofSocket {w w' : Workspace} {table table' : TypeTable}
    (h : Known (ofSocket w table block socket)) : Known (ofSocket w' table' block socket) := by
  unfold ofSocket at h ⊢
  split at h
  · split
    · rename_i hsocket
      rw [if_pos hsocket, bind_pure_iff] at h
      exact bind_pure_iff.2 h
    · rename_i hsocket
      rwa [if_neg hsocket] at h
  · exact bind_pure_iff.2 (bind_pure_iff.1 h)
  · exact h

end

end StaticType

/-! ## Inference -/

namespace Inference

variable {w : Workspace} {off : String → Bool}
variable {block : Block}

theorem sure_childType_prune {socket : String} (h : Able (childType w block socket)) :
    Sure (childType (w.prune off) block socket) := by
  obtain ⟨table, hanswer⟩ := h.right
  refine Sure.get.bind fun table' => .liftM ?_
  exact StaticType.known_ofChild_prune hanswer.known table'

theorem sure_addArguments_prune {index : Nat} {parameters : List String}
    (h : Able (addArguments w block index parameters)) :
    Sure (addArguments (w.prune off) block index parameters) := by
  induction parameters generalizing index with
  | nil => exact .pure _
  | cons parameter rest ih =>
    obtain ⟨type, hrest⟩ := h.right
    obtain ⟨_, hrest⟩ := hrest.right
    exact (sure_childType_prune h.left).bind fun _ => (Sure.modify _).bind fun _ => ih hrest

theorem sure_addValues_prune (h : Able (addValues w block)) :
    Sure (addValues (w.prune off) block) := by
  unfold addValues at h ⊢
  split at h
  · obtain ⟨name, hname, hvalue⟩ := h.of_liftM_bind
    exact .liftM_bind hname ((sure_childType_prune hvalue.left).bind fun _ => .modify _)
  · obtain ⟨name, hname, harguments⟩ := h.of_liftM_bind
    refine .liftM_bind hname ?_
    rw [Workspace.parameters?_prune]
    exact sure_addArguments_prune harguments
  · exact .pure _

theorem sure_addResult_prune (h : Able (addResult w block)) :
    Sure (addResult (w.prune off) block) := by
  unfold addResult at h ⊢
  split at h
  · obtain ⟨name, hname, hvalue⟩ := h.of_liftM_bind
    exact .liftM_bind hname ((sure_childType_prune hvalue.left).bind fun _ => .modify _)
  · exact .pure _

/-- Blocks that are enabled after pruning were enabled before. -/
theorem mem_enabled_of_prune
    (h : block ∈ (w.prune off).byId.filter (fun block => !block.disabled)) :
    block ∈ w.byId.filter (fun block => !block.disabled) := by
  rw [Workspace.byId_prune] at h
  obtain ⟨hmem, henabled⟩ := List.mem_filter.1 h
  obtain ⟨original, horiginal, rfl⟩ := List.mem_map.1 hmem
  have hsame : original.pruned off = original :=
    Block.pruned_eq_of_enabled (by simpa using henabled)
  rw [hsame] at henabled ⊢
  exact List.mem_filter.2 ⟨horiginal, henabled⟩

/-- Inference that ends well from some table ends well from every table after pruning. -/
theorem sure_inferAll_prune (h : Able (inferAll w)) (off : String → Bool) :
    Sure (inferAll (w.prune off)) := by
  obtain ⟨_, hrest⟩ := h.right
  obtain ⟨_, hresults⟩ := hrest.right
  refine (Sure.forM _ fun block hblock => ?_).bind fun _ => (Sure.modify _).bind fun _ =>
    Sure.forM _ fun block hblock => ?_
  · exact sure_addValues_prune (h.left.of_mem_forM (mem_enabled_of_prune hblock))
  · exact sure_addResult_prune (hresults.of_mem_forM (mem_enabled_of_prune hblock))

end Inference

end RobotBlocks
