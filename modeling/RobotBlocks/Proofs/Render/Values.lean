import RobotBlocks.Proofs.Render.Operands
import RobotBlocks.Render.Generate

/-!
# Rendered values

Each function that renders a block is followed once: given what is rendered for the sockets of the
block, it gives an expression of the tree that the block stands for. The functions that both targets
share come first, then those in which the targets differ.
-/

set_option autoImplicit false

namespace RobotBlocks

open Grammar List
open StaticType (ofChild)

/-- What is rendered for a socket: the static type there, and a tree for every naming. -/
structure DrawnOperand where
  type : Option String
  tree : (String → String) → Tree

/-- The static types in the sockets of a block are found, and what is rendered for the sockets is as
given. -/
def Renderer.DrawsOperands (r : Renderer) (types : TypeTable) (block : Block) :
    List DrawnOperand → List Slot → Prop :=
  List.Forall₂ fun operand slot =>
    ofChild r.setting.workspace types block slot.name = .ok operand.type ∧
      DrawsTree types (r.operand block slot.name) operand.tree

variable {r : Renderer} {types : TypeTable} {block : Block}
variable {operands : List DrawnOperand} {starts : Bool}

theorem Renderer.DrawsOperands.mapM {slots : List Slot}
    (h : r.DrawsOperands types block operands slots) :
    DrawsTrees types ((slots.map Slot.name).mapM (r.operand block)) fun naming =>
      operands.map (·.tree naming) := by
  induction h with
  | nil => exact .pure fun _ => .nil
  | cons hfirst _ ih =>
    rw [map_cons, mapM_cons]
    refine Draws.bind hfirst.2 fun expr => Draws.bind ih fun exprs => ?_
    exact .pure fun naming hexprs hexpr => .cons hexpr hexprs

section

variable {left right : (String → String) → Tree}

theorem draws_callWith {function : String} {tree : Tree} {sockets : List String}
    {trees : (String → String) → List Tree} (hfunction : IsPath function)
    (htree : pathTree function = tree)
    (h : DrawsTrees types (sockets.mapM (r.operand block)) trees) :
    DrawsTree types (r.callWith block function sockets) fun naming => .call tree (trees naming) :=
  Draws.bind_pure h fun _ _ hexprs => .call hfunction htree hexprs

theorem draws_binary {operator : Operator} (hoperator : operator ∈ Operator.all)
    (hleft : DrawsTree types (r.operand block "A") left)
    (hright : DrawsTree types (r.operand block "B") right) :
    DrawsTree types (r.binary block operator) fun naming =>
      .binary operator.symbol (left naming) (right naming) :=
  Draws.bind hleft fun _ => Draws.bind_pure hright fun _ _ hright hleft =>
    .binary hoperator hleft hright

end

/-- The expression of a block with operands in its sockets. -/
def Renderer.nodeTree (r : Renderer) (types : TypeTable) (starts : Bool) (head : ValueHead)
    (operands : List DrawnOperand) (naming : String → String) : Tree :=
  head.tree (r.scope types naming) (operands.map DrawnOperand.type) starts
    (operands.map (·.tree naming))

/-! ## Arithmetic -/

theorem draws_isIntegral {type : Option String} {socket : String}
    (h : ofChild r.setting.workspace types block socket = .ok type) :
    Draws types (r.isIntegral block socket) fun _ answer => answer = isIntegralType type := by
  refine .get_bind fun draft hdraft => ?_
  rw [hdraft]
  exact .liftM_bind h (.pure fun _ => rfl)

section Quotient

variable {dividend divisor : Option String}
  (hdividend : ofChild r.setting.workspace types block "A" = .ok dividend)
  (hdivisor : ofChild r.setting.workspace types block "B" = .ok divisor)
include hdividend hdivisor

/-- A class drops the fraction of a quotient of two whole numbers. -/
theorem draws_dropsFraction :
    Draws types (r.dropsFraction block) fun _ answer =>
      answer = decide (r.setting.target = .java ∧ [dividend, divisor].all isIntegralType) := by
  unfold Renderer.dropsFraction
  cases r.setting.target with
  | javaScript => exact .pure fun _ => by simp
  | java =>
    refine (draws_isIntegral hdividend).bind fun answer => ?_
    cases answer with
    | false => exact .pure fun _ hanswer => by simp [← hanswer]
    | true =>
      refine (draws_isIntegral hdivisor).mono fun _ answer hright hleft => ?_
      simp [← hleft, hright]

theorem draws_quotient {left right : (String → String) → Tree}
    (hleft : DrawsTree types (r.operand block "A") left)
    (hright : DrawsTree types (r.operand block "B") right) :
    DrawsTree types (r.quotient block) fun naming =>
      arithmeticTree r.setting.target [dividend, divisor] (left naming) (right naming) .divide := by
  refine (draws_dropsFraction hdividend hdivisor).bind fun answer => ?_
  cases answer with
  | true =>
    refine Draws.bind hleft fun _ => Draws.bind_pure hright fun naming _ hright hleft hdrops => ?_
    simp only [arithmeticTree, if_pos (of_decide_eq_true hdrops.symm)]
    exact .binary (by decide) (hleft.cast .double) hright
  | false =>
    refine Draws.mono (draws_binary (by decide) hleft hright) fun naming _ hexpr hdrops => ?_
    simp only [arithmeticTree, if_neg (of_decide_eq_false hdrops.symm)]
    exact hexpr

end Quotient

theorem draws_arithmetic {operation : Arithmetic} {items : Nat}
    (hchosen : ValueHead.Chosen block "OP" Arithmetic.ofField? operation)
    (h : r.DrawsOperands types block operands ((ValueHead.arithmetic operation).slots items)) :
    DrawsTree types (r.arithmetic block) (r.nodeTree types starts (.arithmetic operation) operands) := by
  obtain ⟨field, hfield, hoperation⟩ := hchosen
  have hmapM := h.mapM
  rcases h with _ | ⟨⟨hdividend, hleft⟩, _ | ⟨⟨hdivisor, hright⟩, _ | _⟩⟩
  refine .liftM_bind (Block.requiredField_eq_ok hfield) ?_
  unfold Arithmetic.ofField? at hoperation
  split at hoperation <;> cases hoperation
  · exact draws_binary (by decide) hleft hright
  · exact draws_binary (by decide) hleft hright
  · exact draws_binary (by decide) hleft hright
  · exact draws_quotient hdividend hdivisor hleft hright
  · exact draws_callWith (by decide) rfl hmapM

theorem writes_ten : (Expr.number "10").Writes (.number "10") := .digits (by decide)

theorem draws_decimalLogarithm {operand : (String → String) → Tree}
    (hoperand : DrawsTree types (r.operand block "NUM") operand)
    (hmapM : DrawsTrees types (["NUM"].mapM (r.operand block)) fun naming => [operand naming]) :
    DrawsTree types (r.decimalLogarithm block) fun naming =>
      singleTree r.setting.target (operand naming) .decimalLogarithm := by
  unfold Renderer.decimalLogarithm singleTree
  cases r.setting.target with
  | javaScript =>
    refine Draws.bind_pure hoperand fun _ _ hexpr => ?_
    exact .binary (by decide) (.call (by decide) rfl (.cons hexpr .nil))
      (.call (by decide) rfl (.cons writes_ten .nil))
  | java => exact draws_callWith (by decide) rfl hmapM

theorem draws_single {operation : SingleOperation} {items : Nat}
    (hchosen : ValueHead.Chosen block "OP" SingleOperation.ofField? operation)
    (h : r.DrawsOperands types block operands ((ValueHead.single operation).slots items)) :
    DrawsTree types (r.single block) (r.nodeTree types starts (.single operation) operands) := by
  obtain ⟨field, hfield, hoperation⟩ := hchosen
  have hmapM := h.mapM
  rcases h with _ | ⟨⟨-, hoperand⟩, _ | _⟩
  refine .liftM_bind (Block.requiredField_eq_ok hfield) ?_
  unfold SingleOperation.ofField? at hoperation
  split at hoperation <;> cases hoperation
  · exact Draws.bind_pure hoperand fun _ _ hexpr => hexpr.negate
  · exact Draws.bind_pure hoperand fun _ _ hexpr =>
      .call (by decide) rfl (.cons writes_ten (.cons hexpr .nil))
  · exact draws_callWith (by decide) rfl hmapM
  · exact draws_callWith (by decide) rfl hmapM
  · exact draws_callWith (by decide) rfl hmapM
  · exact draws_decimalLogarithm hoperand hmapM
  · exact draws_callWith (by decide) rfl hmapM

/-! ## Numbers, logic and texts -/

/-- A number that a block states is in the range of its format. -/
theorem inRange_literal {value : Binary64} (h : block.literal = .ok value) :
    Binary64.InRange value := by
  unfold Block.literal at h
  obtain ⟨text, -, h⟩ := Known.bind_eq_ok_iff.1 h
  cases hread : Binary64.read (Text.trim text) with
  | none => simp [hread] at h
  | some found =>
    obtain rfl : found = value := by simpa [hread] using h
    exact Binary64.inRange_read hread

theorem writes_literal (target : Target) {value : Binary64} (h : block.literal = .ok value)
    (hfinite : value.isFinite = true) :
    (Expr.number (Numeral.literal target value)).Writes
      (literalTree (Numeral.literal target value)) := by
  cases value with
  | nan | infinite negative => cases hfinite
  | finite negative significand exponent =>
    have hnumber := (Numeral.isLiteral_literal target (inRange_literal h)).isNumber_magnitude
    refine ⟨.number (.inl hnumber), ?_⟩
    rw [Expr.tree, Expr.magnitudeTree_of_isNumber hnumber, literalTree, Expr.magnitude]
    split <;> rfl

theorem comparison_eq {sign : String} (h : ValueHead.Chosen block "OP" comparisonSign? sign) :
    ∃ operator ∈ Operator.all, Renderer.comparison block = .ok operator ∧
      operator.symbol = sign := by
  obtain ⟨field, hfield, hsign⟩ := h
  unfold Renderer.comparison
  rw [Block.requiredField_eq_ok hfield]
  unfold comparisonSign? at hsign
  split at hsign <;> cases hsign
  all_goals exact ⟨_, by decide, rfl, rfl⟩

theorem connective_eq {sign : String} (h : ValueHead.Chosen block "OP" connectiveSign? sign) :
    ∃ operator ∈ Operator.all, Renderer.connective block = .ok operator ∧
      operator.symbol = sign := by
  obtain ⟨field, hfield, hsign⟩ := h
  unfold Renderer.connective
  rw [Block.requiredField_eq_ok hfield]
  unfold connectiveSign? at hsign
  split at hsign <;> cases hsign
  all_goals exact ⟨_, by decide, rfl, rfl⟩

theorem truthValue_eq {word : String} (h : ValueHead.Chosen block "BOOL" truthWord? word) :
    Renderer.truthValue block = .ok (.name word) ∧ (Expr.name word).Writes (.name word) := by
  obtain ⟨field, hfield, hword⟩ := h
  unfold Renderer.truthValue
  rw [Block.requiredField_eq_ok hfield]
  unfold truthWord? at hword
  split at hword <;> cases hword <;> exact ⟨rfl, .name (by decide) (by decide)⟩

theorem writes_textLiteral (content : String) : (r.textLiteral content).Writes (.text content) := by
  unfold Renderer.textLiteral
  cases r.setting.target with
  | javaScript => exact .text (.inl rfl) content
  | java => exact .text (.inr rfl) content

/-- A word that is not reserved is no name of a type. -/
theorem not_mem_typeWords {word : String} (h : Identifier.isReserved word = false) :
    word ∉ typeWords := by
  have hreserved : ∀ type ∈ typeWords, Identifier.isReserved type = true := by decide
  intro hmem
  rw [hreserved word hmem] at h
  cases h

theorem draws_variable {name : String} :
    DrawsTree types (do return .name (← Render.variableIdentifier name)) fun naming =>
      .name (naming name) := by
  refine (Render.draws_variableIdentifier name).bind_pure ?_
  rintro naming identifier ⟨hword, hreserved, rfl⟩
  exact .name hword (not_mem_typeWords hreserved)

/-! ## Items -/

theorem draws_items
    (h : r.DrawsOperands types block operands (ValueHead.list.slots block.itemCount)) :
    DrawsTrees types (r.items block) fun naming => operands.map (·.tree naming) := by
  have hmapM := h.mapM
  rw [ValueHead.slots, map_map, mapM_map] at hmapM
  exact hmapM

theorem writes_joinedInScript {exprs : List Expr} {trees : List Tree} (startsWithText : Bool)
    (h : Expr.WritesAll exprs trees) (hne : trees ≠ []) :
    (Renderer.joinedInScript exprs).Writes (joinedTree startsWithText .javaScript trees) := by
  have hcall : ∀ {expr tree}, Expr.Writes expr tree →
      (Expr.call "String" [expr]).Writes (.call (.name "String") [tree]) := fun hexpr =>
    .call (by decide) rfl (.cons hexpr .nil)
  rcases h with _ | ⟨hfirst, _ | ⟨hsecond, _ | ⟨hthird, hrest⟩⟩⟩
  · cases hne rfl
  · exact hcall hfirst
  · exact .binary (by decide) (hcall hfirst) (hcall hsecond)
  · exact .join (.cons hfirst (.cons hsecond (.cons hthird hrest)))

theorem writes_joinedInClass {exprs : List Expr} {trees : List Tree} (startsWithText : Bool)
    (h : Expr.WritesAll exprs trees) (hne : trees ≠ []) :
    (Renderer.joinedInClass startsWithText exprs).Writes
      (joinedTree startsWithText .java trees) := by
  rcases h with _ | ⟨hfirst, _ | ⟨hsecond, hrest⟩⟩
  · cases hne rfl
  · exact .call (by decide) rfl (.cons hfirst .nil)
  · have hmore := List.Forall₂.cons hsecond hrest
    cases startsWithText with
    | true =>
      simp only [Renderer.joinedInClass, joinedTree, if_true]
      exact hfirst.chain hmore
    | false =>
      simp only [Renderer.joinedInClass, joinedTree, Bool.false_eq_true, if_false]
      exact .chain (.text (.inr rfl) "") (.cons hfirst hmore)

theorem draws_joined (hstarts : operands ≠ [] → r.firstIsText block = starts)
    (h : r.DrawsOperands types block operands (ValueHead.join.slots block.itemCount)) :
    DrawsTree types (r.joined block) (r.nodeTree types starts .join operands) := by
  unfold Renderer.joined
  have hlength : block.itemCount = operands.length := by
    simpa [ValueHead.slots] using h.length_eq.symm
  have hitems := draws_items h
  cases operands with
  | nil =>
    rw [if_pos (by simpa using hlength)]
    have hempty : ∀ naming, r.nodeTree types starts .join [] naming = .text "" := by
      intro naming
      rw [Renderer.nodeTree, ValueHead.tree, map_nil, joinedTree]
    exact .pure fun naming => hempty naming ▸ writes_textLiteral ""
  | cons first rest =>
    rw [if_neg (by simp [hlength]), hstarts (by simp)]
    refine Draws.bind hitems fun exprs => ?_
    show Draws types _ fun naming (expr : Expr) => _ → expr.Writes (joinedTree _ r.setting.target _)
    generalize r.setting.target = target
    cases target with
    | javaScript => exact .pure fun naming hexprs => writes_joinedInScript _ hexprs (by simp)
    | java => exact .pure fun naming hexprs => writes_joinedInClass _ hexprs (by simp)

theorem draws_importJavaUtil : Draws types (Render.importKnown "JavaUtil") fun _ _ => True :=
  Render.draws_importKnown (by decide)

theorem draws_listOf
    (h : r.DrawsOperands types block operands (ValueHead.list.slots block.itemCount)) :
    DrawsTree types (r.listOf block) (r.nodeTree types starts .list operands) := by
  unfold Renderer.listOf
  refine Draws.bind (draws_items h) fun exprs => ?_
  simp only [Renderer.nodeTree, ValueHead.tree, Renderer.scope]
  generalize r.setting.target = target
  cases target with
  | javaScript => exact .pure fun _ hexprs => .list hexprs
  | java =>
    refine draws_importJavaUtil.bind fun _ => .pure fun _ _ hexprs => ?_
    exact .call (by decide) rfl hexprs

end RobotBlocks
