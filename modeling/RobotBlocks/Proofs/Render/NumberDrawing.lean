import RobotBlocks.Proofs.Render.Moves
import RobotBlocks.Proofs.Render.NumberTree

/-!
# Rendered numbers

Whenever the root of a tree of numbers is rendered in a class, the expression is one that the tree draws
(`draws_of_yields`). There is one lemma for each kind of block, about any renderer of the blocks below;
the induction over the tree puts them together.

Links that lead nowhere need no thought here: where one does, nothing is rendered.
-/

set_option autoImplicit false

namespace RobotBlocks

open Setting

/-! ## Sockets -/

namespace Renderer

variable {r : Renderer} {block child : Block} {socket : String} {before after : Draft} {expr : Expr}

theorem cases_of_yields_operandOr {fallback : Expr}
    (h : Yields (r.operandOr block socket fallback) before expr after) :
    (r.setting.workspace.plugged? block socket = none ∧ expr = fallback) ∨
      ∃ child, r.setting.workspace.plugged? block socket = some child ∧
        Yields (r.plugged block socket child) before expr after := by
  revert h
  refine operandOr_cases (r := r) (P := fun x _ => Yields x before expr after → _) rfl
    (fun hempty h => .inl ⟨?_, (yields_pure.1 h).1.symm⟩) (fun _ _ _ h => absurd h yields_throw)
    fun id child hsocket hchild henabled h => .inr ⟨child, ?_, h⟩
  · refine Option.eq_none_iff_forall_ne_some.2 fun child hplugged => ?_
    obtain ⟨id, hsocket, hchild, henabled⟩ := Workspace.plugged?_eq_some_iff.1 hplugged
    rw [hempty id child hsocket hchild] at henabled
    cases henabled
  · exact Workspace.plugged?_eq_some_iff.2 ⟨id, hsocket, hchild, henabled⟩

theorem exists_of_yields_plugged (hjava : r.setting.target = .java)
    (h : Yields (r.plugged block socket child) before expr after) :
    ∃ start value middle, start.types = before.types ∧ Yields (r.value child) start value middle ∧
      Yields (r.coerce block socket child value) middle expr after := by
  unfold plugged at h
  rw [hjava] at h
  split at h
  · exact absurd h yields_throw
  · obtain ⟨_, start, hcheck, h⟩ := yields_bind.1 h
    obtain ⟨value, middle, hvalue, hcoerce⟩ := yields_bind.1 h
    have htypes := (Draft.steady_types.closed.checkSocket _ _ _).of_yields hcheck
    exact ⟨start, value, middle, htypes, hvalue, hcoerce⟩

end Renderer

theorem Block.inputType_eq_none {block : Block} (hkind : ∀ kind, block.kind ≠ .deviceSet kind)
    (h : ∀ socket ∈ block.shape.sockets, socket.declared = none) (socket : String) :
    block.inputType socket = .ok none := by
  have hdeclared : (block.shape.socket? socket).bind Socket.declared = none := by
    rw [Option.bind_eq_none_iff]
    intro found hfound
    exact h found (List.mem_of_find?_eq_some hfound)
  unfold inputType
  split
  · rename_i hdevice
    exact absurd hdevice (hkind _)
  · rw [hdeclared]

/-- The sockets in which blocks take numbers, with what is rendered if nothing stands in them. -/
inductive Block.TakesNumber (block : Block) : String → Expr → Prop
  | arithmetic {socket : String} : block.kind = .mathArithmetic → socket = "A" ∨ socket = "B" →
      TakesNumber block socket .zero
  | single : block.kind = .mathSingle → TakesNumber block "NUM" .zero
  | choice {socket : String} : block.kind = .logicTernary → socket = "THEN" ∨ socket = "ELSE" →
      TakesNumber block socket .nothing

section

variable {block : Block} {socket : String} {empty : Expr}
variable (hsocket : block.TakesNumber socket empty) (hshape : block.shape = Shape.ofKind block.kind)

include hsocket hshape

theorem Renderer.placeholder_eq (r : Renderer) : r.placeholder block socket = empty := by
  rcases hsocket with ⟨hkind, rfl | rfl⟩ | hkind | ⟨hkind, rfl | rfl⟩ <;>
    rw [placeholder, hshape, hkind] <;> rfl

/-- The blocks of numbers state no types for their sockets. -/
theorem StaticType.ofSocket_eq_none (w : Workspace) (table : TypeTable) :
    ofSocket w table block socket = .ok none := by
  have hkind : block.kind = .mathArithmetic ∨ block.kind = .mathSingle ∨
      block.kind = .logicTernary := by
    cases hsocket <;> simp [*]
  have hinput : block.inputType socket = .ok none := by
    refine Block.inputType_eq_none ?_ ?_ socket
    · rcases hkind with hkind | hkind | hkind <;> simp [hkind]
    · rw [hshape]
      rcases hkind with hkind | hkind | hkind <;> simp [hkind, Shape.ofKind, Shape.taking]
  unfold ofSocket
  rcases hkind with hkind | hkind | hkind <;> simpa only [hkind] using hinput

end

/-! ## Blocks -/

namespace Renderer

variable {r : Renderer} {block : Block} {empty expr : Expr} {before after : Draft}
variable {left right : NumberTree}
variable {operation : Arithmetic}

/-- All expressions in a socket are drawn by a tree. -/
def DrawsIn (r : Renderer) (block : Block) (socket : String) (empty : Expr) (tree : NumberTree) :
    Prop :=
  ∀ before expr after, Yields (r.operand block socket) before expr after → tree.Draws empty expr

theorem draws_of_yields_binary {operator : Operator} (hleft : r.DrawsIn block "A" .zero left)
    (hright : r.DrawsIn block "B" .zero right)
    (hoperator : NumberTree.operatorOf? operation = some operator)
    (h : Yields (r.binary block operator) before expr after) :
    (NumberTree.arithmetic operation left right).Draws empty expr := by
  obtain ⟨x, _, hx, h⟩ := yields_bind.1 h
  obtain ⟨y, hy, rfl⟩ := yields_bind_pure.1 h
  exact .operator hoperator (hleft _ _ _ hx) (hright _ _ _ hy)

theorem draws_of_yields_quotient (hleft : r.DrawsIn block "A" .zero left)
    (hright : r.DrawsIn block "B" .zero right) (h : Yields (r.quotient block) before expr after) :
    (NumberTree.arithmetic .divide left right).Draws empty expr := by
  obtain ⟨drops, _, -, h⟩ := yields_bind.1 h
  split at h
  · obtain ⟨x, _, hx, h⟩ := yields_bind.1 h
    obtain ⟨y, hy, rfl⟩ := yields_bind_pure.1 h
    exact .quotient (hleft _ _ _ hx) (hright _ _ _ hy)
  · exact draws_of_yields_binary hleft hright rfl h

theorem exists_of_yields_power (h : Yields (r.callWith block "Math.pow" ["A", "B"]) before expr after) :
    ∃ x middle y, Yields (r.operand block "A") before x middle ∧
      Yields (r.operand block "B") middle y after ∧ expr = .call "Math.pow" [x, y] := by
  obtain ⟨_, harguments, rfl⟩ := yields_bind_pure.1 h
  obtain ⟨x, middle, _, hx, hrest, rfl⟩ := yields_mapM_cons.1 harguments
  obtain ⟨y, _, _, hy, hnil, rfl⟩ := yields_mapM_cons.1 hrest
  obtain ⟨rfl, rfl⟩ := yields_pure.1 hnil
  exact ⟨x, middle, y, hx, hy, rfl⟩

/-- What an arithmetic block is rendered by, with its operation read. -/
theorem arithmetic_of_chosen (h : block.chosen? "OP" Arithmetic.ofField? = some operation) :
    r.arithmetic block =
      match operation with
      | .add => r.binary block .plus
      | .subtract => r.binary block .minus
      | .multiply => r.binary block .times
      | .divide => r.quotient block
      | .power => r.callWith block "Math.pow" ["A", "B"] := by
  obtain ⟨field, hfield, hread⟩ := Option.bind_eq_some_iff.1 h
  unfold arithmetic
  rw [Block.requiredField_eq_ok hfield]
  unfold Arithmetic.ofField? at hread
  split at hread <;> cases hread <;> rfl

theorem draws_of_yields_arithmetic
    (hoperation : block.chosen? "OP" Arithmetic.ofField? = some operation)
    (hleft : r.DrawsIn block "A" .zero left) (hright : r.DrawsIn block "B" .zero right)
    (h : Yields (r.arithmetic block) before expr after) :
    (NumberTree.arithmetic operation left right).Draws empty expr := by
  rw [arithmetic_of_chosen hoperation] at h
  cases operation with
  | add | subtract | multiply => exact draws_of_yields_binary hleft hright rfl h
  | divide => exact draws_of_yields_quotient hleft hright h
  | power =>
    obtain ⟨x, _, y, hx, hy, rfl⟩ := exists_of_yields_power h
    exact .power (hleft _ _ _ hx) (hright _ _ _ hy)

/-- A class may have an expression for an operation on one number. -/
inductive WritesSingle (operand : Expr) : SingleOperation → Expr → Prop
  | negative : WritesSingle operand .negative (.negate operand)
  | powerOfTen : WritesSingle operand .powerOfTen (.call "Math.pow" [.number "10", operand])
  | function {operation : SingleOperation} {function : String} :
      NumberTree.functionOf? operation = some function →
      WritesSingle operand operation (.call function [operand])

variable {operation : SingleOperation}

/-- An operation on one operand is written around what that is rendered to. -/
theorem exists_of_yields_single (hjava : r.setting.target = .java)
    (hoperation : block.chosen? "OP" SingleOperation.ofField? = some operation)
    (h : Yields (r.single block) before expr after) :
    ∃ x, Yields (r.operand block "NUM") before x after ∧ WritesSingle x operation expr := by
  have hcall : ∀ {function : String}, NumberTree.functionOf? operation = some function →
      Yields (r.callWith block function ["NUM"]) before expr after →
      ∃ x, Yields (r.operand block "NUM") before x after ∧ WritesSingle x operation expr := by
    intro function hfunction h
    obtain ⟨_, harguments, rfl⟩ := yields_bind_pure.1 h
    obtain ⟨x, _, _, hx, hnil, rfl⟩ := yields_mapM_cons.1 harguments
    obtain ⟨rfl, rfl⟩ := yields_pure.1 hnil
    exact ⟨x, hx, .function hfunction⟩
  obtain ⟨field, hfield, hread⟩ := Option.bind_eq_some_iff.1 hoperation
  replace h := h.of_liftM_bind (Block.requiredField_eq_ok hfield)
  unfold SingleOperation.ofField? at hread
  split at hread <;> cases hread
  · obtain ⟨x, hx, rfl⟩ := yields_bind_pure.1 h
    exact ⟨x, hx, .negative⟩
  · obtain ⟨x, hx, rfl⟩ := yields_bind_pure.1 h
    exact ⟨x, hx, .powerOfTen⟩
  · exact hcall rfl h
  · exact hcall rfl h
  · exact hcall rfl h
  · unfold decimalLogarithm at h
    rw [hjava] at h
    exact hcall rfl h
  · exact hcall rfl h

theorem draws_of_yields_single (hjava : r.setting.target = .java) {operand : NumberTree}
    (hoperation : block.chosen? "OP" SingleOperation.ofField? = some operation)
    (hoperand : r.DrawsIn block "NUM" .zero operand)
    (h : Yields (r.single block) before expr after) :
    (NumberTree.single operation operand).Draws empty expr := by
  obtain ⟨x, hx, hexpr⟩ := exists_of_yields_single hjava hoperation h
  cases hexpr with
  | negative => exact .negative (hoperand _ _ _ hx)
  | powerOfTen => exact .powerOfTen (hoperand _ _ _ hx)
  | function hfunction => exact .function hfunction (hoperand _ _ _ hx)

theorem draws_of_yields_ternary {yes no : NumberTree} (hyes : r.DrawsIn block "THEN" .nothing yes)
    (hno : r.DrawsIn block "ELSE" .nothing no) (h : Yields (r.ternary block) before expr after) :
    (NumberTree.choice yes no).Draws empty expr := by
  obtain ⟨test, _, -, h⟩ := yields_bind.1 h
  obtain ⟨x, _, hx, h⟩ := yields_bind.1 h
  obtain ⟨y, hy, rfl⟩ := yields_bind_pure.1 h
  exact .choice (hyes _ _ _ hx) (hno _ _ _ hy)

end Renderer

variable {signature : CallSignature}

namespace Compiled

variable {r : Renderer} {block : Block} {before after : Draft} {expr : Expr}

theorem exists_method_of_yields {receiver : String}
    (h : Yields (methodCall r block receiver signature) before expr after) :
    ∃ member arguments, expr = .method (.verbatim receiver) member arguments := by
  obtain ⟨member, _, -, h⟩ := yields_bind.1 h
  obtain ⟨arguments, -, rfl⟩ := yields_bind_pure.1 h
  exact ⟨member, arguments, rfl⟩

theorem exists_method_of_yields_staticCall (h : Yields (staticCall r block) before expr after) :
    ∃ receiver member arguments, expr = .method (.verbatim receiver) member arguments := by
  obtain ⟨signature, _, -, h⟩ := yields_bind.1 h
  obtain ⟨_, _, -, h⟩ := yields_bind.1 h
  have hcall : ∃ start,
      Yields (methodCall r block signature.simpleName signature) start expr after := by
    split at h
    · obtain ⟨_, start, -, h⟩ := yields_bind.1 h
      exact ⟨start, h⟩
    · exact ⟨_, h⟩
  obtain ⟨start, h⟩ := hcall
  exact ⟨_, exists_method_of_yields h⟩

theorem exists_method_of_yields_deviceCall (h : Yields (deviceCall r block) before expr after) :
    ∃ receiver member arguments, expr = .method (.verbatim receiver) member arguments := by
  obtain ⟨signature, _, -, h⟩ := yields_bind.1 h
  obtain ⟨_, _, -, h⟩ := yields_bind.1 h
  obtain ⟨_, _, -, h⟩ := yields_bind.1 h
  obtain ⟨identifier, _, -, h⟩ := yields_bind.1 h
  exact ⟨_, exists_method_of_yields h⟩

end Compiled

/-! ## Trees -/

namespace Setting

variable {setting : Setting} {depth : Nat} {block : Block} {before after : Draft} {expr : Expr}

/-- The blocks of numbers are rendered by what both targets share. -/
theorem exists_yields_sharedValue (hjava : setting.target = .java)
    (hkind : block.kind ∈ [.mathNumber, .mathArithmetic, .mathSingle, .logicTernary, .variablesGet])
    (h : Yields ((setting.rendererWithin depth).value block) before expr after) :
    ∃ below, Yields ((setting.rendererWithin below).sharedValue block) before expr after := by
  obtain ⟨below, h⟩ := exists_yields_value hjava h
  refine ⟨below, ?_⟩
  rw [Compiled.value] at h
  simp only [List.mem_cons, List.not_mem_nil, or_false] at hkind
  rcases hkind with hkind | hkind | hkind | hkind | hkind <;> simpa only [hkind] using h

/-- A block that calls a method is rendered as a call of one. -/
theorem exists_method_of_calls (hjava : setting.target = .java) (hcalls : block.Calls signature)
    (h : Yields ((setting.rendererWithin depth).value block) before expr after) :
    ∃ receiver member arguments, expr = .method (.verbatim receiver) member arguments := by
  obtain ⟨below, h⟩ := exists_yields_value hjava h
  rw [Compiled.value] at h
  rcases hcalls.1 with hkind | hkind
  · rw [hkind] at h
    exact Compiled.exists_method_of_yields_staticCall h
  · rw [hkind] at h
    exact Compiled.exists_method_of_yields_deviceCall h

section

variable (hjava : setting.target = .java) {socket : String} {empty : Expr}
variable (hsocket : block.TakesNumber socket empty) (hshape : block.shape = Shape.ofKind block.kind)

include hjava hsocket hshape

/-- What is rendered in a socket for numbers: what is written if nothing stands in it, and otherwise
the block that does. -/
theorem cases_of_yields_operand {missing : Prop} {holds : Block → Prop}
    (hholds : setting.workspace.InSocket block socket missing holds)
    (h : Yields ((setting.rendererWithin depth).operand block socket) before expr after) :
    (missing ∧ expr = empty) ∨
      ∃ id child start middle, setting.workspace.get? id = some child ∧ holds child ∧
        Yields ((setting.rendererWithin depth).value child) start expr middle ∧
        ∀ {M : Draft → Draft → Prop}, Draft.Steady M → M middle after := by
  unfold Workspace.InSocket at hholds
  rcases Renderer.cases_of_yields_operandOr h with ⟨hempty, rfl⟩ | ⟨child, hchild, h⟩
  · rw [setting_rendererWithin] at hempty
    rw [hempty] at hholds
    exact .inl ⟨hholds, Renderer.placeholder_eq hsocket hshape _⟩
  · rw [setting_rendererWithin] at hchild
    rw [hchild] at hholds
    obtain ⟨id, -, hget, -⟩ := Workspace.plugged?_eq_some_iff.1 hchild
    obtain ⟨start, value, middle, -, hvalue, hcoerce⟩ :=
      Renderer.exists_of_yields_plugged (by simpa using hjava) h
    obtain ⟨_, _, -, huntyped⟩ := yields_bind.1 hcoerce
    obtain ⟨rfl, -⟩ := yields_pure.1
      (huntyped.of_liftM_bind (StaticType.ofSocket_eq_none hsocket hshape _ _))
    exact .inr ⟨id, child, start, middle, hget, hholds, hvalue, fun hsteady =>
      (hsteady.closed.coerce (fun _ => hsteady.refl) block socket _).of_yields hcoerce⟩

/-- What is drawn in a socket of a block for numbers, given what the blocks of the tree in it draw. -/
theorem drawsIn {part : NumberTree}
    (hpart : ∀ (block : Block) (before after : Draft) (expr empty : Expr),
      part.Holds setting.workspace block →
      Yields ((setting.rendererWithin depth).value block) before expr after →
      part.Draws empty expr) (hholds : setting.workspace.InSocket block socket (part = .missing)
      (part.Holds setting.workspace)) :
    (setting.rendererWithin depth).DrawsIn block socket empty part := by
  intro before expr after h
  rcases cases_of_yields_operand hjava hsocket hshape hholds h with
    ⟨rfl, rfl⟩ | ⟨_, child, start, middle, -, hchild, hvalue, -⟩
  · exact .missing _
  · exact hpart child start middle expr _ hchild hvalue

end

end Setting

namespace NumberTree

/-- Whenever the root of a tree is rendered in a class, the expression is one that the tree draws. -/
theorem draws_of_yields {setting : Setting} (hjava : setting.target = .java) (tree : NumberTree) :
    ∀ (depth : Nat) (block : Block) (before after : Draft) (expr empty : Expr),
      tree.Holds setting.workspace block →
      Yields ((setting.rendererWithin depth).value block) before expr after →
      tree.Draws empty expr := by
  induction tree with
  | missing =>
    intro depth block before after expr empty hholds
    exact hholds.elim
  | number value =>
    rintro depth block before after expr empty ⟨hkind, hliteral⟩ h
    obtain ⟨below, h⟩ := exists_yields_sharedValue hjava (by simp [hkind]) h
    rw [Renderer.sharedValue, hkind] at h
    obtain ⟨rfl, -⟩ := yields_pure.1 (h.of_liftM_bind hliteral)
    rw [setting_rendererWithin, hjava]
    exact .number _ _
  | arithmetic operation left right ihleft ihright =>
    rintro depth block before after expr empty ⟨⟨hkind, hshape⟩, hoperation, hleft, hright⟩ h
    obtain ⟨below, h⟩ := exists_yields_sharedValue hjava (by simp [hkind]) h
    rw [Renderer.sharedValue, hkind] at h
    exact Renderer.draws_of_yields_arithmetic hoperation
      (drawsIn hjava (.arithmetic hkind (.inl rfl)) hshape (ihleft below) hleft)
      (drawsIn hjava (.arithmetic hkind (.inr rfl)) hshape (ihright below) hright) h
  | single operation operand ih =>
    rintro depth block before after expr empty ⟨⟨hkind, hshape⟩, hoperation, hoperand⟩ h
    obtain ⟨below, h⟩ := exists_yields_sharedValue hjava (by simp [hkind]) h
    rw [Renderer.sharedValue, hkind] at h
    exact Renderer.draws_of_yields_single (by simpa using hjava) hoperation
      (drawsIn hjava (.single hkind) hshape (ih below) hoperand) h
  | choice yes no ihyes ihno =>
    rintro depth block before after expr empty ⟨⟨hkind, hshape⟩, hyes, hno⟩ h
    obtain ⟨below, h⟩ := exists_yields_sharedValue hjava (by simp [hkind]) h
    rw [Renderer.sharedValue, hkind] at h
    exact Renderer.draws_of_yields_ternary
      (drawsIn hjava (.choice hkind (.inl rfl)) hshape (ihyes below) hyes)
      (drawsIn hjava (.choice hkind (.inr rfl)) hshape (ihno below) hno) h
  | call result =>
    rintro depth block before after expr empty ⟨signature, hcalls, hresult⟩ h
    obtain ⟨receiver, member, arguments, rfl⟩ := exists_method_of_calls hjava hcalls h
    exact .call

end NumberTree

end RobotBlocks
