import RobotBlocks.Proofs.StaticType.Success
import RobotBlocks.Proofs.StaticType.Trees

/-!
# Trees of operators

The blocks of arithmetic and logic, the joining of texts, and the numbers, truth values and variables that
they go down to. Any of their sockets may be empty or hold a disabled block, and the numbers may be
infinite or not numbers at all (`Workspace.HoldsOperators`).

A tree is no higher than there are blocks (`HoldsOperators.of_size`): going down from a block by one that
makes it as high as it is, every block is the root of a lower tree than the one before. So the search for
types, which goes as deep as there are blocks, finds the type in every socket (`known_ofChild`).
-/

set_option autoImplicit false

namespace RobotBlocks

/-- What a block does, if it is an operator, a number, a truth value or a variable, with choices that
exist. -/
def ValueHead.operator? (block : Block) : Option ValueHead :=
  match block.kind with
  | .mathNumber => block.literal.toOption.map number
  | .mathArithmetic | .mathSingle | .logicBoolean | .logicCompare | .logicOperation | .logicNegate
  | .logicTernary | .textJoin | .variablesGet => of? block
  | _ => none

/-- What the fields of a block say about its number, which may be of any size, or about what else it
does. -/
def ValueHead.Operates (block : Block) : ValueHead → Prop
  | number value => block.literal = .ok value
  | null | text _ | list | angle | formatted | rounded | isNull | isNotNull => False
  | head => head.Stated block

theorem ValueHead.operates {block : Block} {head : ValueHead} (h : operator? block = some head) :
    block.kind = head.kind ∧ head.Operates block := by
  unfold operator? at h
  split at h <;> rename_i hkind
  case h_1 =>
    cases hliteral : block.literal with
    | error fault => simp [hliteral, Except.toOption] at h
    | ok value =>
      obtain rfl : number value = head := by simpa [hliteral, Except.toOption] using h
      exact ⟨hkind, hliteral⟩
  case h_11 => cases h
  all_goals
    obtain ⟨hhead, hstated⟩ := kind_and_stated h
    refine ⟨hhead, ?_⟩
    rw [hkind] at hhead
    cases head <;> cases hhead
    exact hstated

namespace Workspace

/-- A socket is empty, or it holds a disabled block, or one with a property. -/
def SocketHolds (w : Workspace) (holds : Block → Prop) (block : Block) (socket : String) : Prop :=
  ∀ id, block.values.get? socket = some id →
    ∃ child, w.get? id = some child ∧ (child.disabled = false → holds child)

theorem SocketHolds.mono {w : Workspace} {holds holds' : Block → Prop} {block : Block}
    {socket : String} (h : w.SocketHolds holds block socket)
    (himp : ∀ child ∈ w.blocks, holds child → holds' child) : w.SocketHolds holds' block socket := by
  intro id hid
  obtain ⟨child, hchild, hholds⟩ := h id hid
  exact ⟨child, hchild, fun henabled => himp child (List.mem_of_find?_eq_some hchild) (hholds henabled)⟩

/-- A block is the root of a tree of operators of at most a height. -/
def HoldsOperators (w : Workspace) : (height : Nat) → Block → Prop
  | 0, _ => False
  | height + 1, block =>
    block.IsPlain ∧ ∃ head, ValueHead.operator? block = some head ∧
      ∀ slot ∈ head.slots block.itemCount, w.SocketHolds (w.HoldsOperators height) block slot.name

variable {w : Workspace} {block : Block} {height : Nat}

section

variable (h : w.HoldsOperators height block)

include h

theorem HoldsOperators.exists_outputCheck? : ∃ check, block.shape.outputCheck? = some check := by
  cases height with
  | zero => exact h.elim
  | succ height =>
    obtain ⟨hplain, head, hhead, -⟩ := h
    exact hplain.exists_outputCheck? (ValueHead.operates hhead).1

/-! ## Heights -/

theorem HoldsOperators.succ : w.HoldsOperators (height + 1) block := by
  induction height generalizing block with
  | zero => exact h.elim
  | succ height ih =>
    obtain ⟨hplain, head, hhead, hslots⟩ := h
    exact ⟨hplain, head, hhead, fun slot hslot => (hslots slot hslot).mono fun child _ => ih⟩

theorem HoldsOperators.mono {higher : Nat} (hle : height ≤ higher) :
    w.HoldsOperators higher block := by
  induction hle with
  | refl => exact h
  | step _ ih => exact ih.succ

end

/-- If a tree has a height and not a smaller one, so has a tree in one of the sockets. -/
theorem HoldsOperators.exists_child (h : w.HoldsOperators (height + 2) block)
    (hnot : ¬ w.HoldsOperators (height + 1) block) :
    ∃ child ∈ w.blocks, w.HoldsOperators (height + 1) child ∧ ¬ w.HoldsOperators height child := by
  obtain ⟨hplain, head, hhead, hslots⟩ := h
  by_contra hnone
  refine hnot ⟨hplain, head, hhead, fun slot hslot => (hslots slot hslot).mono ?_⟩
  intro child hchild hholds
  by_contra hlower
  exact hnone ⟨child, hchild, hholds, hlower⟩

/-- Down from a block there are as many different blocks as its tree is high. -/
theorem HoldsOperators.exists_way_down (hblock : block ∈ w.blocks)
    (h : w.HoldsOperators (height + 1) block) (hnot : ¬ w.HoldsOperators height block) :
    ∃ blocks : List Block, blocks.length = height + 1 ∧ blocks.Nodup ∧
      ∀ other ∈ blocks, other ∈ w.blocks ∧ w.HoldsOperators (height + 1) other := by
  induction height generalizing block with
  | zero => exact ⟨[block], rfl, by simp, by simpa using ⟨hblock, h⟩⟩
  | succ height ih =>
    obtain ⟨child, hchild, hlower, hnotLower⟩ := h.exists_child hnot
    obtain ⟨blocks, hlength, hnodup, hblocks⟩ := ih hchild hlower hnotLower
    have hnew : block ∉ blocks := fun hmem => hnot (hblocks block hmem).2
    refine ⟨block :: blocks, by simp [hlength], List.nodup_cons.2 ⟨hnew, hnodup⟩, ?_⟩
    intro other hother
    rcases List.mem_cons.1 hother with rfl | hother
    · exact ⟨hblock, h⟩
    · exact ⟨(hblocks other hother).1, (hblocks other hother).2.succ⟩

theorem HoldsOperators.of_size (hblock : block ∈ w.blocks) (h : w.HoldsOperators height block) :
    w.HoldsOperators w.size block := by
  induction height with
  | zero => exact h.elim
  | succ height ih =>
    by_cases hlower : w.HoldsOperators height block
    · exact ih hlower
    · obtain ⟨blocks, hlength, hnodup, hblocks⟩ := h.exists_way_down hblock hlower
      have hle : blocks.length ≤ w.size :=
        (List.subperm_of_subset hnodup fun other hother => (hblocks other hother).1).length_le
      exact h.mono (hlength ▸ hle)

end Workspace

/-! ## Static types -/

namespace StaticType

variable {w : Workspace} {table : TypeTable} {block : Block}

/-- The type of a tree of operators is known. -/
theorem known_within (table : TypeTable) {height : Nat} (h : w.HoldsOperators height block) :
    Known (within w table height block) := by
  induction height generalizing block with
  | zero => exact h.elim
  | succ height ih =>
    obtain ⟨hplain, head, hhead, hslots⟩ := h
    obtain ⟨hkind, hoperates⟩ := ValueHead.operates hhead
    have hready : ∀ slot ∈ head.slots block.itemCount,
        Known (inSocket w (within w table height) block slot.name) := fun slot hslot =>
      known_inSocket ((hslots slot hslot).mono fun child _ => ih)
    rw [within, known_step_iff]
    unfold Block.TypeNeeds
    rw [hkind]
    cases head with
    | number => exact ⟨_, hoperates⟩
    | arithmetic =>
      exact .inr (.inr ⟨hready (.ofNumber "A") (by simp [ValueHead.slots]),
        hready (.ofNumber "B") (by simp [ValueHead.slots])⟩)
    | single => exact fun _ => hready (.ofNumber "NUM") (by simp [ValueHead.slots])
    | choice =>
      exact ⟨hready (.ofAny "THEN") (by simp [ValueHead.slots]),
        hready (.ofAny "ELSE") (by simp [ValueHead.slots])⟩
    | got => exact ⟨_, Block.requiredField_eq_ok hoperates⟩
    | truth | comparison | connective | negation | join =>
      exact ⟨_, stated_eq hplain hkind rfl⟩
    | _ => exact hoperates.elim

theorem known_ofChild {height : Nat} {socket : String}
    (h : w.SocketHolds (w.HoldsOperators height) block socket) :
    Known (ofChild w table block socket) :=
  known_inSocket (h.mono fun _ hchild hholds => known_within table (hholds.of_size hchild))

end StaticType

end RobotBlocks
