import RobotBlocks.Proofs.Expr.Writes
import RobotBlocks.Proofs.Render.Drawing
import RobotBlocks.Proofs.StaticType.Trees

/-!
# Rendered operands

The expression that is rendered for a socket is the one that the tree in the socket stands for, with
its conversion, or the placeholder of the socket (`draws_operand`). It is assumed that the renderer
renders the blocks in the sockets well; the induction over trees comes later.
-/

set_option autoImplicit false

namespace RobotBlocks

open Grammar List

variable {head : ValueHead}

/-! ## Sockets -/

/-- A slot tells what is known of a socket. -/
inductive Slot.Matches : Slot → Option Socket → Prop
  | number (name : String) (declared : Option String)
      (h : declared ∈ [none, some "int", some "double"]) :
      Matches (.ofNumber name (declared.bind NumericType.ofLabel?)) (some ⟨name, .number, declared⟩)
  | truth (name : String) : Matches (.ofTruth name) (some ⟨name, .boolean, none⟩)
  | any (name : String) : Matches (.ofAny name) (some ⟨name, .any, none⟩)

theorem matches_numberedSockets {count index : Nat} (h : index < count) :
    (Slot.ofAny ("ADD" ++ toString index)).Matches
      ((Mutation.numberedSockets "ADD" 0 count .any).find? fun socket =>
        socket.name = "ADD" ++ toString index) := by
  cases hfound : (Mutation.numberedSockets "ADD" 0 count .any).find? fun socket =>
      socket.name = "ADD" ++ toString index with
  | none =>
    have hnone := find?_eq_none.1 hfound ⟨"ADD" ++ toString index, .any, none⟩
      (mem_map.2 ⟨index, by simp [h], rfl⟩)
    simp at hnone
  | some socket =>
    obtain ⟨other, -, rfl⟩ := mem_map.1 (mem_of_find?_eq_some hfound)
    have hname : "ADD" ++ toString other = "ADD" ++ toString index := by
      simpa using find?_some hfound
    rw [hname]
    exact .any _

/-- The sockets of a plain block are those that the slots of its head say. -/
theorem matches_socket? {block : Block} {slot : Slot} (hplain : block.IsPlain)
    (hkind : block.kind = head.kind) (hslot : slot ∈ head.slots block.itemCount) :
    slot.Matches (block.shape.socket? slot.name) := by
  unfold Shape.socket?
  rw [hplain.shape_eq.1, hkind]
  cases head with
  | join | list =>
    obtain ⟨index, hindex, rfl⟩ := mem_map.1 hslot
    exact matches_numberedSockets (mem_range.1 hindex)
  | number | truth | null | text | got => cases hslot
  | arithmetic =>
    rcases mem_pair.1 hslot with rfl | rfl
    · exact .number "A" none (by simp)
    · exact .number "B" none (by simp)
  | single =>
    obtain rfl := mem_singleton.1 hslot
    exact .number "NUM" none (by simp)
  | comparison =>
    rcases mem_pair.1 hslot with rfl | rfl
    · exact .any "A"
    · exact .any "B"
  | connective =>
    rcases mem_pair.1 hslot with rfl | rfl
    · exact .truth "A"
    · exact .truth "B"
  | negation =>
    obtain rfl := mem_singleton.1 hslot
    exact .truth "BOOL"
  | choice =>
    simp only [ValueHead.slots, mem_cons, not_mem_nil, or_false] at hslot
    rcases hslot with rfl | rfl | rfl
    · exact .truth "IF"
    · exact .any "THEN"
    · exact .any "ELSE"
  | angle =>
    rcases mem_pair.1 hslot with rfl | rfl
    · exact .number "Y" (some "double") (by simp)
    · exact .number "X" (some "double") (by simp)
  | formatted | rounded =>
    rcases mem_pair.1 hslot with rfl | rfl
    · exact .number "NUMBER" (some "double") (by simp)
    · exact .number "PRECISION" (some "int") (by simp)
  | isNull | isNotNull =>
    obtain rfl := mem_singleton.1 hslot
    exact .any "VALUE"

/-! ## Placeholders and conversions -/

variable {r : Renderer} {block : Block} {slot : Slot}

/-- The placeholder of a socket is what its slot says. -/
theorem writes_placeholder (h : slot.Matches (block.shape.socket? slot.name)) :
    (r.placeholder block slot.name).Writes slot.missing := by
  unfold Renderer.placeholder
  generalize block.shape.socket? slot.name = found at h
  cases h with
  | number name declared =>
    exact .digits (by decide)
  | truth name | any name => exact .name (by decide) (by decide)

/-- The literal of a finite number in a socket that takes `int` or `double` is converted if the number
is no `int` and the socket takes one. -/
theorem writes_literalFor {expr : Expr} {tree : Tree} (h : expr.Writes tree) {value : Binary64}
    (hfinite : value.isFinite = true) {expected : NumericType}
    (hexpected : expected = .int ∨ expected = .double) :
    (Expr.literalFor expected value expr).Writes (converted .java (some expected)
      (some (if Numeral.fitsInt value then "int" else "double")) tree) := by
  unfold Expr.literalFor
  rw [hfinite]
  rcases hexpected with rfl | rfl <;> cases Numeral.fitsInt value
  · exact h.cast .int
  · exact h
  · exact h
  · exact h

/-- The type that a socket of a block takes is the one in its shape. -/
theorem ofSocket_eq {w : Workspace} {table : TypeTable} {socket : String}
    (hkind : block.kind = head.kind) :
    StaticType.ofSocket w table block socket =
      .ok ((block.shape.socket? socket).bind Socket.declared) := by
  unfold StaticType.ofSocket Block.inputType
  rw [hkind]
  cases head <;> rfl

/-- What a socket takes is nothing special, `int` or `double`. -/
theorem Slot.Matches.expected_cases {found : Option Socket} (h : slot.Matches found) :
    (found.bind Socket.declared).bind NumericType.ofLabel? = slot.expected ∧
      (slot.expected = none ∨
        ∃ expected, slot.expected = some expected ∧ (expected = .int ∨ expected = .double)) := by
  cases h with
  | number name declared h =>
    simp only [mem_cons, not_mem_nil, or_false] at h
    rcases h with rfl | rfl | rfl
    · exact ⟨rfl, .inl rfl⟩
    · exact ⟨rfl, .inr ⟨.int, rfl, .inl rfl⟩⟩
    · exact ⟨rfl, .inr ⟨.double, rfl, .inr rfl⟩⟩
  | truth name | any name => exact ⟨rfl, .inl rfl⟩

variable {types : TypeTable}

/-- The operand of a class gets the conversion that its socket needs. -/
theorem draws_coerce {tree : ValueTree} {child : Block} {expr : Expr}
    (hkind : block.kind = head.kind) (hslot : slot.Matches (block.shape.socket? slot.name))
    (hchild : child ∈ r.setting.workspace.blocks) (h : tree.Holds r.setting.workspace child) :
    Draws types (r.coerce block slot.name child expr) fun _ converted' =>
      ∀ operand, expr.Writes operand →
        converted'.Writes (converted .java slot.expected (tree.type? types) operand) := by
  refine .get_bind fun draft hdraft => ?_
  rw [hdraft]
  refine .liftM_bind (ofSocket_eq hkind) ?_
  obtain ⟨hdeclared, hexpected⟩ := hslot.expected_cases
  rw [hdeclared]
  rcases hexpected with hnone | ⟨expected, hsome, hexpected⟩
  · rw [hnone]
    exact .pure fun _ operand hoperand => hoperand
  · rw [hsome]
    dsimp only
    obtain ⟨childHead, operands⟩ := tree
    obtain ⟨-, hhead, -⟩ := ValueTree.holds_node.1 h
    obtain ⟨hchildKind, hstated⟩ := ValueHead.kind_and_stated hhead
    split
    · next hnumber =>
      obtain ⟨value, rfl⟩ : ∃ value, childHead = .number value := by
        rw [hchildKind] at hnumber
        cases childHead <;> cases hnumber
        exact ⟨_, rfl⟩
      refine .liftM_bind hstated.1 (.pure fun _ operand hoperand => ?_)
      exact writes_literalFor hoperand hstated.2 hexpected
    · refine .liftM_bind (StaticType.ofBlock_eq hchild h) ?_
      cases hfound : ((ValueTree.node childHead operands).type? types).bind NumericType.ofLabel? with
      | none =>
        refine .pure fun _ operand hoperand => ?_
        simp only [converted, hfound]
        exact hoperand
      | some found =>
        refine .pure fun _ operand hoperand => ?_
        simp only [converted, hfound]
        split
        · exact hoperand.cast expected
        · exact hoperand

/-! ## Operands -/

/-- A step gives an expression of a tree, which depends on the naming. -/
def DrawsTree (types : TypeTable) (action : Render Expr) (tree : (String → String) → Tree) : Prop :=
  Draws types action fun naming expr => expr.Writes (tree naming)

def DrawsTrees (types : TypeTable) (action : Render (List Expr))
    (trees : (String → String) → List Tree) : Prop :=
  Draws types action fun naming exprs => Expr.WritesAll exprs (trees naming)

/-- What the expressions of a renderer depend on, given a naming of the variables. -/
def Renderer.scope (r : Renderer) (types : TypeTable) (naming : String → String) : Scope :=
  { target := r.setting.target, types, identifier := naming }

/-- The expression of an operand in a socket. -/
def ValueTree.denoteAt (scope : Scope) (slot : Slot) : Option ValueTree → Tree
  | none => slot.missing
  | some tree => converted scope.target slot.expected (tree.type? scope.types) (tree.denote scope)

theorem denoteAll_cons (scope : Scope) (slot : Slot) (slots : List Slot)
    (operand : Option ValueTree) (operands : List (Option ValueTree)) :
    ValueTree.denoteAll scope (slot :: slots) (operand :: operands) =
      ValueTree.denoteAt scope slot operand :: ValueTree.denoteAll scope slots operands := by
  cases operand <;> rw [ValueTree.denoteAll, ValueTree.denoteAt]

/-- A renderer renders a tree as what it stands for. -/
def Renderer.Draws (r : Renderer) (types : TypeTable) (tree : ValueTree) : Prop :=
  ∀ child ∈ r.setting.workspace.blocks, tree.Holds r.setting.workspace child →
    DrawsTree types (r.value child) fun naming => tree.denote (r.scope types naming)

theorem draws_checkSocket (block : Block) (socket : String) (found : Check) :
    Draws types (Renderer.checkSocket block socket found) fun _ _ => True := by
  unfold Renderer.checkSocket
  split
  · split
    · exact .pure fun _ => trivial
    · exact Render.draws_record _
  · exact .pure fun _ => trivial

/-- The operand in a socket is rendered as what it stands for there, if the renderer renders the tree
in the socket. -/
theorem draws_operand {operand : Option ValueTree} (hkind : block.kind = head.kind)
    (hslot : slot.Matches (block.shape.socket? slot.name))
    (h : ValueTree.HoldsAt r.setting.workspace operand block slot.name)
    (hvalue : ∀ tree, operand = some tree → r.Draws types tree) :
    DrawsTree types (r.operand block slot.name) fun naming =>
      ValueTree.denoteAt (r.scope types naming) slot operand := by
  unfold Renderer.operand Renderer.operandOr
  cases operand with
  | none =>
    cases hfound : block.values.get? slot.name with
    | none => exact .pure fun _ => writes_placeholder hslot
    | some id =>
      obtain ⟨child, hchild, hdisabled⟩ := h id hfound
      refine .liftM_bind (a := child) (by rw [Workspace.block, hchild]) ?_
      rw [if_pos hdisabled]
      exact .pure fun _ => writes_placeholder hslot
  | some tree =>
    obtain ⟨id, child, hfound, hchild, henabled, htree⟩ := h
    have hmem : child ∈ r.setting.workspace.blocks := mem_of_find?_eq_some hchild
    obtain ⟨check, hcheck⟩ := htree.exists_outputCheck?
    rw [hfound]
    refine .liftM_bind (a := child) (by rw [Workspace.block, hchild]) ?_
    rw [if_neg (by simp [henabled]), hcheck]
    refine (draws_checkSocket block slot.name check).bind fun _ => ?_
    refine (hvalue tree rfl child hmem htree).bind fun expr => ?_
    have hdenote : ∀ naming, ValueTree.denoteAt (r.scope types naming) slot (some tree) =
        converted r.setting.target slot.expected (tree.type? types)
          (tree.denote (r.scope types naming)) := fun _ => rfl
    simp only [hdenote]
    generalize r.setting.target = target
    cases target with
    | javaScript => exact .pure fun naming hexpr _ => hexpr
    | java =>
      refine (draws_coerce hkind hslot hmem htree).mono fun naming result hresult hexpr _ => ?_
      exact hresult _ hexpr

end RobotBlocks
