import Mathlib.Data.List.Perm.Subperm
import RobotBlocks.Proofs.Render.ValueTree

/-!
# Trees held by a workspace

A block is the root of at most one tree (`holds_unique`). The blocks on a way down a tree are
therefore all different: the same block twice would be the root of a tree and of a smaller one. So a
tree is at most as high as the workspace has blocks (`height_le_size`), and the search for static
types, which goes at most that deep, finds the type of the tree (`ofBlock_eq`).
-/

set_option autoImplicit false

namespace RobotBlocks

open List

variable {block : Block}

namespace ValueTree

variable {operands : List (Option ValueTree)} {block : Block} {tree : ValueTree}

/-! ## Induction and height -/

mutual

variable {motive : ValueTree → Prop}

/-- What holds of a tree if it holds of its operands holds of all trees. -/
theorem ind (node : ∀ head operands, (∀ tree, some tree ∈ operands → motive tree) →
      motive (node head operands)) : ∀ tree, motive tree
  | .node head operands => node head operands (indAll node operands)

theorem indAll (node : ∀ head operands, (∀ tree, some tree ∈ operands → motive tree) →
      motive (node head operands)) :
    ∀ operands : List (Option ValueTree), ∀ tree, some tree ∈ operands → motive tree
  | [], _, hmem => by simp at hmem
  | none :: rest, tree, hmem => indAll node rest tree (by simpa using hmem)
  | some first :: rest, tree, hmem => by
    rcases mem_cons.1 hmem with heq | hmem
    · exact Option.some.inj heq ▸ ind node first
    · exact indAll node rest tree hmem

end

mutual

/-- How many blocks stand in one another at most. -/
def height : ValueTree → Nat
  | .node _ operands => heights operands + 1

def heights : List (Option ValueTree) → Nat
  | [] => 0
  | none :: rest => heights rest
  | some tree :: rest => max tree.height (heights rest)

end

theorem height_le_heights (h : some tree ∈ operands) : tree.height ≤ heights operands := by
  induction operands with
  | nil => cases h
  | cons operand operands ih =>
    cases operand with
    | none => exact ih (by simpa using h)
    | some first =>
      rw [heights]
      rcases mem_cons.1 h with heq | h
      · exact Option.some.inj heq ▸ Nat.le_max_left _ _
      · exact Nat.le_trans (ih h) (Nat.le_max_right _ _)

theorem heights_eq_zero_or_exists (operands : List (Option ValueTree)) :
    heights operands = 0 ∨ ∃ tree, some tree ∈ operands ∧ tree.height = heights operands := by
  induction operands with
  | nil => exact .inl rfl
  | cons operand operands ih =>
    cases operand with
    | none =>
      refine ih.imp_right ?_
      rintro ⟨tree, hmem, heq⟩
      exact ⟨tree, mem_cons_of_mem _ hmem, heq⟩
    | some first =>
      rw [heights]
      rcases Nat.le_total (heights operands) first.height with hle | hle
      · exact .inr ⟨first, mem_cons_self, (Nat.max_eq_left hle).symm⟩
      · rcases ih with hzero | ⟨tree, hmem, heq⟩
        · exact .inr ⟨first, mem_cons_self, (Nat.max_eq_left (by omega)).symm⟩
        · exact .inr ⟨tree, mem_cons_of_mem _ hmem, by rw [heq, Nat.max_eq_right hle]⟩

/-! ## One tree for each block -/

variable {w : Workspace}

theorem holdAll_iff {slots : List Slot} :
    HoldAll w operands block slots ↔
      List.Forall₂ (fun operand slot => HoldsAt w operand block slot.name) operands slots := by
  induction operands generalizing slots with
  | nil => simp [HoldAll, forall₂_nil_left_iff]
  | cons operand operands ih =>
    simp only [HoldAll, ih, forall₂_cons_left_iff]
    constructor
    · rintro ⟨slot, rest, rfl, hslot, hrest⟩
      exact ⟨slot, rest, hslot, hrest, rfl⟩
    · rintro ⟨slot, rest, hslot, hrest, rfl⟩
      exact ⟨slot, rest, rfl, hslot, hrest⟩

theorem holds_node {head : ValueHead} :
    (node head operands).Holds w block ↔
      block.IsPlain ∧ ValueHead.of? block = some head ∧
        List.Forall₂ (fun operand slot => HoldsAt w operand block slot.name) operands
          (head.slots block.itemCount) := by
  rw [Holds, holdAll_iff]

/-- A socket holds at most one tree, if blocks are roots of at most one. -/
theorem holdsAt_unique {operand operand' : Option ValueTree} {socket : String}
    (ih : ∀ tree, operand = some tree → ∀ child tree', tree.Holds w child → tree'.Holds w child →
      tree = tree') (h : HoldsAt w operand block socket) (h' : HoldsAt w operand' block socket) :
    operand = operand' := by
  -- a disabled child and an enabled one cannot be the same block
  have hexcluded : ∀ tree, HoldsAt w none block socket → HoldsAt w (some tree) block socket →
      False := by
    rintro tree hnone ⟨id, child, hid, hchild, henabled, -⟩
    obtain ⟨child', hchild', hdisabled⟩ := hnone id hid
    rw [hchild] at hchild'
    cases hchild'
    simp [henabled] at hdisabled
  cases operand with
  | none =>
    cases operand' with
    | none => rfl
    | some tree' => exact (hexcluded tree' h h').elim
  | some tree =>
    cases operand' with
    | none => exact (hexcluded tree h' h).elim
    | some tree' =>
      obtain ⟨id, child, hid, hchild, -, htree⟩ := h
      obtain ⟨id', child', hid', hchild', -, htree'⟩ := h'
      obtain rfl : id = id' := by simpa [hid] using hid'
      obtain rfl : child = child' := by simpa [hchild] using hchild'
      rw [ih tree rfl child tree' htree htree']

theorem holds_unique (tree : ValueTree) : ∀ (block : Block) (tree' : ValueTree),
    tree.Holds w block → tree'.Holds w block → tree = tree' := by
  induction tree using ind with
  | node head operands ih =>
    rintro block ⟨head', operands'⟩ h h'
    obtain ⟨-, hhead, hslots⟩ := holds_node.1 h
    obtain ⟨-, hhead', hslots'⟩ := holds_node.1 h'
    obtain rfl : head = head' := by simpa [hhead] using hhead'
    congr 1
    clear h h'
    generalize head.slots block.itemCount = slots at hslots hslots'
    induction hslots generalizing operands' with
    | nil => simpa using hslots'
    | cons hslot hslots ihslots =>
      cases hslots' with
      | cons hslot' hslots' =>
        congr 1
        · refine holdsAt_unique (fun tree htree child => ?_) hslot hslot'
          exact ih tree (by simp [htree]) child
        · exact ihslots (fun tree htree => ih tree (mem_cons_of_mem _ htree)) _ hslots'

/-! ## The height of a tree -/

theorem exists_child {head : ValueHead} (h : (node head operands).Holds w block)
    (hmem : some tree ∈ operands) : ∃ child ∈ w.blocks, tree.Holds w child := by
  obtain ⟨-, -, hslots⟩ := holds_node.1 h
  clear h
  generalize head.slots block.itemCount = slots at hslots
  induction hslots with
  | nil => cases hmem
  | cons hslot _ ih =>
    rcases mem_cons.1 hmem with rfl | hmem
    · obtain ⟨id, child, -, hchild, -, htree⟩ := hslot
      exact ⟨child, mem_of_find?_eq_some hchild, htree⟩
    · exact ih hmem

/-- There is a way down a tree with as many blocks as the tree is high, and no block is on it
twice. -/
theorem exists_way_down (tree : ValueTree) : ∀ block ∈ w.blocks, tree.Holds w block →
    ∃ blocks : List Block, blocks.length = tree.height ∧ blocks.Nodup ∧
      ∀ other ∈ blocks, other ∈ w.blocks ∧
        ∃ tree' : ValueTree, tree'.Holds w other ∧ tree'.height ≤ tree.height := by
  induction tree using ind with
  | node head operands ih =>
    intro block hblock h
    rcases heights_eq_zero_or_exists operands with hzero | ⟨tree, hmem, heq⟩
    · refine ⟨[block], by simp [height, hzero], by simp, ?_⟩
      intro other hother
      obtain rfl := mem_singleton.1 hother
      exact ⟨hblock, _, h, Nat.le_refl _⟩
    · obtain ⟨child, hchild, htree⟩ := exists_child h hmem
      obtain ⟨blocks, hlength, hnodup, hblocks⟩ := ih tree hmem child hchild htree
      refine ⟨block :: blocks, by simp [height, hlength, heq], ?_, ?_⟩
      · -- below the block there are only roots of smaller trees
        refine nodup_cons.2 ⟨fun hmem => ?_, hnodup⟩
        obtain ⟨-, tree', htree', hle⟩ := hblocks block hmem
        rw [holds_unique _ block _ htree' h, height] at hle
        omega
      · intro other hother
        rcases mem_cons.1 hother with rfl | hother
        · exact ⟨hblock, _, h, Nat.le_refl _⟩
        · obtain ⟨hmem, tree', htree', hle⟩ := hblocks other hother
          exact ⟨hmem, tree', htree', by rw [height]; omega⟩

/-- A tree is at most as high as there are blocks. -/
theorem height_le_size (hblock : block ∈ w.blocks) (h : tree.Holds w block) :
    tree.height ≤ w.size := by
  obtain ⟨blocks, hlength, hnodup, hblocks⟩ := exists_way_down tree block hblock h
  rw [← hlength]
  exact (subperm_of_subset hnodup fun other hother => (hblocks other hother).1).length_le

end ValueTree

/-! ## The block at the root -/

namespace ValueHead

variable {head : ValueHead} {block : Block}

def kind : ValueHead → BlockKind
  | number _ => .mathNumber
  | arithmetic _ => .mathArithmetic
  | single _ => .mathSingle
  | truth _ => .logicBoolean
  | comparison _ => .logicCompare
  | connective _ => .logicOperation
  | negation => .logicNegate
  | null => .logicNull
  | choice => .logicTernary
  | text _ => .text
  | join => .textJoin
  | list => .listsCreateWith
  | got _ => .variablesGet
  | angle => .misc .atan2
  | formatted => .misc .formatNumber
  | rounded => .misc .roundDecimal
  | isNull => .misc .isNull
  | isNotNull => .misc .isNotNull

/-- A field of a block has a choice that stands for something. -/
def Chosen {α : Type} (block : Block) (name : String) (read : String → Option α) (value : α) :
    Prop :=
  ∃ field, block.field? name = some field ∧ read field = some value

/-- What the fields of a block say about what it does. -/
def Stated (block : Block) : ValueHead → Prop
  | number value => block.literal = .ok value ∧ value.isFinite = true
  | arithmetic operation => Chosen block "OP" Arithmetic.ofField? operation
  | single operation => Chosen block "OP" SingleOperation.ofField? operation
  | truth word => Chosen block "BOOL" truthWord? word
  | comparison sign => Chosen block "OP" comparisonSign? sign
  | connective sign => Chosen block "OP" connectiveSign? sign
  | text content => (block.field? "TEXT").getD "" = content
  | got name => block.field? "VAR" = some name
  | _ => True

theorem exists_chosen {α : Type} {name : String} {read : String → Option α} {make : α → ValueHead}
    (h : ((block.field? name).bind read).map make = some head) :
    ∃ value, Chosen block name read value ∧ make value = head := by
  obtain ⟨value, hvalue, hhead⟩ := Option.map_eq_some_iff.1 h
  obtain ⟨field, hfield, hread⟩ := Option.bind_eq_some_iff.1 hvalue
  exact ⟨value, ⟨field, hfield, hread⟩, hhead⟩

theorem exists_literal (h : (block.literal.toOption.bind finite?).map number = some head) :
    ∃ value, (block.literal = .ok value ∧ value.isFinite = true) ∧ number value = head := by
  cases hliteral : block.literal with
  | error fault => simp [hliteral, Except.toOption] at h
  | ok value =>
    cases hfinite : value.isFinite with
    | false => simp [hliteral, Except.toOption, finite?, hfinite] at h
    | true =>
      exact ⟨value, ⟨rfl, hfinite⟩, by simpa [hliteral, Except.toOption, finite?, hfinite] using h⟩

/-- A block with a head is of its kind and states its fields. -/
theorem kind_and_stated (h : of? block = some head) :
    block.kind = head.kind ∧ head.Stated block := by
  unfold of? at h
  split at h <;> rename_i hkind
  case h_1 =>
    obtain ⟨value, hvalue, rfl⟩ := exists_literal h
    exact ⟨hkind, hvalue⟩
  case h_2 | h_3 | h_4 | h_5 | h_6 =>
    obtain ⟨value, hvalue, rfl⟩ := exists_chosen h
    exact ⟨hkind, hvalue⟩
  case h_10 =>
    cases h
    exact ⟨hkind, rfl⟩
  case h_13 =>
    obtain ⟨name, hfield, rfl⟩ := Option.map_eq_some_iff.1 h
    exact ⟨hkind, hfield⟩
  case h_19 => cases h
  all_goals
    cases h
    exact ⟨hkind, trivial⟩

end ValueHead

/-- A plain block has the sockets of its kind and those of its items, and it gives what its kind
gives. -/
theorem Block.IsPlain.shape_eq (h : block.IsPlain) :
    block.shape.sockets = (Shape.ofKind block.kind).sockets ++
      Mutation.numberedSockets "ADD" 0 block.itemCount .any ∧
    block.shape.output = (Shape.ofKind block.kind).output := by
  have hshape : block.applyMutation.shape = block.shape := by rw [h.shape]
  rw [← hshape]
  unfold Block.applyMutation Block.itemCount
  cases hmutation : block.mutation with
  | none => simp [Mutation.numberedSockets]
  | some mutation =>
    obtain ⟨count, rfl⟩ := h.mutation mutation hmutation
    exact ⟨rfl, rfl⟩

theorem Block.IsPlain.exists_outputCheck? {head : ValueHead} (h : block.IsPlain)
    (hkind : block.kind = head.kind) : ∃ check, block.shape.outputCheck? = some check := by
  unfold Shape.outputCheck?
  rw [h.shape_eq.2, hkind]
  cases head <;> exact ⟨_, rfl⟩

/-- The block at the root of a tree gives a value. -/
theorem ValueTree.Holds.exists_outputCheck? {w : Workspace} {tree : ValueTree}
    (h : tree.Holds w block) : ∃ check, block.shape.outputCheck? = some check := by
  obtain ⟨head, operands⟩ := tree
  obtain ⟨hplain, hhead, -⟩ := holds_node.1 h
  exact hplain.exists_outputCheck? (ValueHead.kind_and_stated hhead).1

end RobotBlocks
