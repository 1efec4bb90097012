import RobotBlocks.Proofs.Render.Holding

/-!
# The static type of a tree

The search for the type of a block goes from the block to those in its sockets, at most as deep as
there are blocks. For the root of a tree it ends with the type of the tree: one step of the search
finds it if the search finds the types of the operands (`step_eq`), so a search at least as deep as
the tree is high does (`within_eq`), and no tree is higher than there are blocks (`ofBlock_eq`).
-/

set_option autoImplicit false

namespace RobotBlocks

namespace StaticType

variable {w : Workspace} {table : TypeTable}
variable {typeOf : Block → Answer} {block : Block}

theorem types_eq_map (operands : List (Option ValueTree)) :
    ValueTree.types table operands = operands.map fun operand => operand.bind (·.type? table) := by
  induction operands with
  | nil => rfl
  | cons operand rest ih => cases operand <;> simp [ValueTree.types, ih]

variable {operand : Option ValueTree}

theorem inSocket_eq {socket : String} (h : ValueTree.HoldsAt w operand block socket)
    (htype : ∀ tree, operand = some tree → ∀ child ∈ w.blocks, tree.Holds w child →
      typeOf child = .ok (tree.type? table)) :
    inSocket w typeOf block socket = .ok (operand.bind (·.type? table)) := by
  unfold inSocket
  cases operand with
  | none =>
    cases hvalue : block.values.get? socket with
    | none => rfl
    | some id =>
      obtain ⟨child, hchild, hdisabled⟩ := h id hvalue
      simp [Workspace.block, hchild, hdisabled, bind, Except.bind, pure, Except.pure]
  | some tree =>
    obtain ⟨id, child, hvalue, hchild, henabled, htree⟩ := h
    have hmem : child ∈ w.blocks := List.mem_of_find?_eq_some hchild
    simp [hvalue, Workspace.block, hchild, henabled, bind, Except.bind,
      htype tree rfl child hmem htree]

/-- The type that the block at the root of a tree states. -/
theorem stated_eq {head : ValueHead} (hplain : block.IsPlain) (hkind : block.kind = head.kind)
    {check : Check} {declared : Option String}
    (houtput : (Shape.ofKind head.kind).output = .value check declared) :
    stated block = .ok (declared.or (ofCheck? check)) := by
  have hshape : block.shape.output = .value check declared := by
    rw [hplain.shape_eq.2, hkind, houtput]
  have htype : block.outputType = .ok declared := by
    unfold Block.outputType
    rw [hkind, hshape]
    cases head <;> rfl
  have hsignature : block.signature? = none := by
    unfold Block.signature?
    cases hmutation : block.mutation with
    | none => rfl
    | some mutation =>
      obtain ⟨count, rfl⟩ := hplain.mutation mutation hmutation
      rfl
  unfold stated
  rw [htype, hsignature]
  cases declared with
  | some type => rfl
  | none => simp [bind, Except.bind, pure, Except.pure, Shape.outputCheck?, hshape]

theorem step_arithmetic {typeOf : Block → Answer} {block : Block} {operation : Arithmetic}
    {left right : Option String} (hkind : block.kind = .mathArithmetic)
    (hchosen : ValueHead.Chosen block "OP" Arithmetic.ofField? operation)
    (hleft : inSocket w typeOf block "A" = .ok left)
    (hright : inSocket w typeOf block "B" = .ok right) :
    step w table typeOf block = .ok ((ValueHead.arithmetic operation).type? table [left, right]) := by
  obtain ⟨field, hfield, hoperation⟩ := hchosen
  unfold step
  rw [hkind]
  simp only [hfield, numericInSocket, hleft, hright]
  unfold Arithmetic.ofField? at hoperation
  split at hoperation <;> cases hoperation <;> rfl

theorem step_single {operation : SingleOperation} {operand : Option String}
    (hkind : block.kind = .mathSingle)
    (hchosen : ValueHead.Chosen block "OP" SingleOperation.ofField? operation)
    (hoperand : inSocket w typeOf block "NUM" = .ok operand) :
    step w table typeOf block = .ok ((ValueHead.single operation).type? table [operand]) := by
  obtain ⟨field, hfield, hoperation⟩ := hchosen
  unfold step
  rw [hkind]
  simp only [hfield, hoperand]
  unfold SingleOperation.ofField? at hoperation
  split at hoperation <;> cases hoperation <;> rfl

theorem step_choice (test : Option String) {yes no : Option String}
    (hkind : block.kind = .logicTernary) (hyes : inSocket w typeOf block "THEN" = .ok yes)
    (hno : inSocket w typeOf block "ELSE" = .ok no) :
    step w table typeOf block = .ok (ValueHead.choice.type? table [test, yes, no]) := by
  unfold step
  rw [hkind]
  simp only [hyes, hno]
  cases yes <;> cases no <;> rfl

/-- The search finds the type of a tree if it finds those of the operands. -/
theorem step_eq {head : ValueHead} {operands : List (Option ValueTree)}
    (h : (ValueTree.node head operands).Holds w block)
    (htype : ∀ tree, some tree ∈ operands → ∀ child ∈ w.blocks, tree.Holds w child →
      typeOf child = .ok (tree.type? table)) :
    step w table typeOf block = .ok ((ValueTree.node head operands).type? table) := by
  obtain ⟨hplain, hhead, hslots⟩ := ValueTree.holds_node.1 h
  obtain ⟨hkind, hstated⟩ := ValueHead.kind_and_stated hhead
  have hsocket : ∀ operand ∈ operands, ∀ socket, ValueTree.HoldsAt w operand block socket →
      inSocket w typeOf block socket = .ok (operand.bind (·.type? table)) :=
    fun operand hmem socket hslot =>
      inSocket_eq hslot fun tree htree => htype tree (htree ▸ hmem)
  rw [ValueTree.type?, types_eq_map]
  cases head with
  | number value =>
    simp [step, hkind, ValueHead.kind, hstated.1, ValueHead.type?, bind, Except.bind, pure,
      Except.pure]
  | arithmetic operation =>
    rcases hslots with _ | ⟨hleft, _ | ⟨hright, _ | _⟩⟩
    exact step_arithmetic hkind hstated (hsocket _ (by simp) _ hleft) (hsocket _ (by simp) _ hright)
  | single operation =>
    rcases hslots with _ | ⟨hoperand, _ | _⟩
    exact step_single hkind hstated (hsocket _ (by simp) _ hoperand)
  | choice =>
    rcases hslots with _ | ⟨htest, _ | ⟨hyes, _ | ⟨hno, _ | _⟩⟩⟩
    exact step_choice _ hkind (hsocket _ (by simp) _ hyes) (hsocket _ (by simp) _ hno)
  | got name =>
    simp only [step, hkind, ValueHead.kind, Block.requiredField_eq_ok hstated]
    rfl
  | _ =>
    -- all other blocks state the type of their values
    simp only [step, hkind, ValueHead.kind]
    rw [stated_eq hplain hkind rfl]
    rfl

/-- A search that is at least as deep as a tree is high finds the type of the tree. -/
theorem within_eq (tree : ValueTree) : ∀ (depth : Nat) (block : Block), tree.height ≤ depth →
    tree.Holds w block → within w table depth block = .ok (tree.type? table) := by
  induction tree using ValueTree.ind with
  | node head operands ih =>
    intro depth block hdepth h
    cases depth with
    | zero => simp [ValueTree.height] at hdepth
    | succ depth =>
      rw [within]
      refine step_eq h fun tree hmem child _ htree => ih tree hmem depth child ?_ htree
      have := ValueTree.height_le_heights hmem
      rw [ValueTree.height] at hdepth
      omega

theorem ofBlock_eq {tree : ValueTree} (hblock : block ∈ w.blocks) (h : tree.Holds w block) :
    ofBlock w table block = .ok (tree.type? table) :=
  within_eq tree w.size block (ValueTree.height_le_size hblock h) h

theorem ofChild_eq {socket : String} (h : ValueTree.HoldsAt w operand block socket) :
    ofChild w table block socket = .ok (operand.bind (·.type? table)) :=
  inSocket_eq h fun _ _ _ hchild htree => ofBlock_eq hchild htree

end StaticType

end RobotBlocks
