import RobotBlocks.Proofs.Render.ValueTree
import RobotBlocks.Proofs.StaticType.Depth
import RobotBlocks.Proofs.StaticType.Merge

/-!
# Trees of numbers

The blocks for number literals, arithmetic and choices and the calls of methods that give numbers form
trees. `Holds w tree block` says that a block of a workspace is the root of a tree, `found` is the type
by which the conversions of its value are decided, and `Draws` says which expressions a class may have
for it.

Whenever the static type of such a block is known, it is the one found (`eq_found_of_within`). It is
not asked whether links lead anywhere: where they do not, no type is known.
-/

set_option autoImplicit false

namespace RobotBlocks

open Known

/-- Whether the result of an operation has a type as wide as the operands. -/
def Arithmetic.keepsType : Arithmetic → Bool
  | add | subtract | multiply => true
  | divide | power => false

/-- Whether the result of an operation has a type as wide as the operand. -/
def SingleOperation.keepsType : SingleOperation → Bool
  | negative | absolute => true
  | _ => false

/-- What blocks do with numbers, down from one of them. -/
inductive NumberTree where
  /-- A socket that is empty or holds a disabled block. -/
  | missing
  | number (value : Binary64)
  | arithmetic (operation : Arithmetic) (left right : NumberTree)
  | single (operation : SingleOperation) (operand : NumberTree)
  /-- A choice between two values; its test is not looked at. -/
  | choice (yes no : NumberTree)
  /-- A call of a method with a result of a primitive type. -/
  | call (result : NumericType)

def Expr.zero : Expr := .number "0"

def Expr.nothing : Expr := .name "null"

namespace Workspace

/-- The enabled block in a socket. -/
def plugged? (w : Workspace) (block : Block) (socket : String) : Option Block :=
  ((block.values.get? socket).bind w.get?).filter fun child => !child.disabled

/-- The block in a socket has a property, or the socket has none and that is as it should be. -/
def InSocket (w : Workspace) (block : Block) (socket : String) (empty : Prop)
    (holds : Block → Prop) : Prop :=
  match w.plugged? block socket with
  | none => empty
  | some child => holds child

theorem plugged?_eq_some_iff {w : Workspace} {block child : Block} {socket : String} :
    w.plugged? block socket = some child ↔
      ∃ id, block.values.get? socket = some id ∧ w.get? id = some child ∧ child.disabled = false := by
  unfold plugged?
  rw [Option.filter_eq_some_iff, Option.bind_eq_some_iff]
  constructor
  · rintro ⟨⟨id, hsocket, hchild⟩, henabled⟩
    exact ⟨id, hsocket, hchild, by simpa using henabled⟩
  · rintro ⟨id, hsocket, hchild, henabled⟩
    exact ⟨⟨id, hsocket, hchild⟩, by simpa using henabled⟩

end Workspace

/-- The method that a block calls, if it is a block that calls one and gives its result. -/
def Block.Calls (block : Block) (signature : CallSignature) : Prop :=
  (block.kind = .callStatic true ∨ block.kind = .callDevice true) ∧
    block.applyMutation = block ∧ block.mutation = some (.call signature)

/-- The choice that a field of a block names. -/
def Block.chosen? {α : Type} (block : Block) (field : String) (read : String → Option α) : Option α :=
  (block.field? field).bind read

namespace NumberTree

/-- A block of a workspace is the root of a tree. -/
def Holds (w : Workspace) : NumberTree → Block → Prop
  | missing, _ => False
  | number value, block => block.kind = .mathNumber ∧ block.literal = .ok value
  | arithmetic operation left right, block =>
    (block.kind = .mathArithmetic ∧ block.shape = Shape.ofKind block.kind) ∧
      block.chosen? "OP" Arithmetic.ofField? = some operation ∧
      w.InSocket block "A" (left = missing) (left.Holds w) ∧
      w.InSocket block "B" (right = missing) (right.Holds w)
  | single operation operand, block =>
    (block.kind = .mathSingle ∧ block.shape = Shape.ofKind block.kind) ∧
      block.chosen? "OP" SingleOperation.ofField? = some operation ∧
      w.InSocket block "NUM" (operand = missing) (operand.Holds w)
  | choice yes no, block =>
    (block.kind = .logicTernary ∧ block.shape = Shape.ofKind block.kind) ∧
      w.InSocket block "THEN" (yes = missing) (yes.Holds w) ∧
      w.InSocket block "ELSE" (no = missing) (no.Holds w)
  | call result, block => ∃ signature, block.Calls signature ∧ signature.returnType = result.label

/-- The type by which the conversions of the value of a tree are decided. -/
def found : NumberTree → Option NumericType
  | missing => none
  | number value => some (if Numeral.fitsInt value then .int else .double)
  | arithmetic operation left right =>
    some (if operation.keepsType then (StaticType.widest? left.found right.found).getD .double
      else .double)
  | single operation operand =>
    some (if operation.keepsType then operand.found.getD .double else .double)
  | choice yes no => StaticType.widest? yes.found no.found
  | call result => some result

def functionOf? : SingleOperation → Option String
  | .root => some "Math.sqrt"
  | .absolute => some "Math.abs"
  | .naturalLogarithm => some "Math.log"
  | .decimalLogarithm => some "Math.log10"
  | .exponential => some "Math.exp"
  | .negative | .powerOfTen => none

def operatorOf? : Arithmetic → Option Operator
  | .add => some .plus
  | .subtract => some .minus
  | .multiply => some .times
  | .divide => some .divide
  | .power => none

/-- A class may have an expression for a tree that stands in a socket; `empty` is what stands there if
the tree is missing. -/
inductive Draws : (empty : Expr) → NumberTree → Expr → Prop
  | missing (empty : Expr) : Draws empty .missing empty
  | number (empty : Expr) (value : Binary64) :
      Draws empty (.number value) (.number (Numeral.literal .java value))
  | operator {empty x y : Expr} {operation : Arithmetic} {operator : Operator}
      {left right : NumberTree} : operatorOf? operation = some operator →
      Draws .zero left x → Draws .zero right y →
      Draws empty (.arithmetic operation left right) (.binary operator x y)
  | quotient {empty x y : Expr} {left right : NumberTree} :
      Draws .zero left x → Draws .zero right y →
      Draws empty (.arithmetic .divide left right) (.binary .divide (.cast "double" x) y)
  | power {empty x y : Expr} {left right : NumberTree} :
      Draws .zero left x → Draws .zero right y →
      Draws empty (.arithmetic .power left right) (.call "Math.pow" [x, y])
  | negative {empty x : Expr} {operand : NumberTree} :
      Draws .zero operand x → Draws empty (.single .negative operand) (.negate x)
  | powerOfTen {empty x : Expr} {operand : NumberTree} :
      Draws .zero operand x →
      Draws empty (.single .powerOfTen operand) (.call "Math.pow" [.number "10", x])
  | function {empty x : Expr} {operation : SingleOperation} {function : String}
      {operand : NumberTree} : functionOf? operation = some function →
      Draws .zero operand x → Draws empty (.single operation operand) (.call function [x])
  | choice {empty test x y : Expr} {yes no : NumberTree} :
      Draws .nothing yes x → Draws .nothing no y →
      Draws empty (.choice yes no) (.conditional test x y)
  | call {empty receiver : Expr} {method : String} {arguments : List Expr} {result : NumericType} :
      Draws empty (.call result) (.method receiver method arguments)

/-! ## Static types -/

end NumberTree

namespace StaticType

variable {w : Workspace} {table : TypeTable} {typeOf : Block → Answer} {block : Block}
variable {socket : String}
variable {signature : CallSignature}

theorem inSocket_of_plugged? {child : Block} (h : w.plugged? block socket = some child) :
    inSocket w typeOf block socket = typeOf child := by
  obtain ⟨id, hsocket, hchild, henabled⟩ := Workspace.plugged?_eq_some_iff.1 h
  rw [inSocket_of_get?_eq_some hsocket hchild, if_neg (by simp [henabled])]

variable {type : Option String}

theorem eq_none_of_inSocket (hempty : w.plugged? block socket = none)
    (h : inSocket w typeOf block socket = .ok type) : type = none := by
  cases hsocket : block.values.get? socket with
  | none =>
    rw [inSocket_of_get?_eq_none hsocket] at h
    exact (Except.ok.inj h).symm
  | some id =>
    cases hchild : w.get? id with
    | none =>
      rw [inSocket_of_dangling hsocket hchild] at h
      cases h
    | some child =>
      rw [inSocket_of_get?_eq_some hsocket hchild] at h
      by_cases hdisabled : child.disabled = true
      · rw [if_pos hdisabled] at h
        exact (Except.ok.inj h).symm
      · have hplugged := Workspace.plugged?_eq_some_iff.2
          ⟨id, hsocket, hchild, by simpa using hdisabled⟩
        rw [hempty] at hplugged
        cases hplugged

/-- The type in a socket, if it is known which type the blocks have that may stand there. -/
theorem eq_of_inSocket {empty : Prop} {holds : Block → Prop} {label : Option String}
    (hholds : w.InSocket block socket empty holds) (hempty : empty → label = none)
    (htype : ∀ child type, holds child → typeOf child = .ok type → type = label)
    (h : inSocket w typeOf block socket = .ok type) : type = label := by
  unfold Workspace.InSocket at hholds
  cases hplugged : w.plugged? block socket with
  | none =>
    rw [hplugged] at hholds
    rw [hempty hholds]
    exact eq_none_of_inSocket hplugged h
  | some child =>
    rw [hplugged] at hholds
    rw [inSocket_of_plugged? hplugged] at h
    exact htype child type hholds h

/-- The type in a socket is the one found for the tree in it, if it is for every block of the tree. -/
theorem eq_found_of_inSocket {tree : NumberTree}
    (hholds : w.InSocket block socket (tree = .missing) (tree.Holds w))
    (htype : ∀ child type, tree.Holds w child → typeOf child = .ok type →
      type = tree.found.map NumericType.label) (h : inSocket w typeOf block socket = .ok type) :
    type = tree.found.map NumericType.label := by
  refine eq_of_inSocket hholds ?_ htype h
  rintro rfl
  rfl

theorem label_resolve (t : NumericType) : (ClassType.resolve t.label .output).label = t.label := by
  cases t <;> decide

theorem stated_of_result? {result : ClassType.Resolved} (h : block.Calls signature)
    (hresult : signature.result? = some result) : stated block = .ok (some result.label) := by
  obtain ⟨hkind, happlied, hmutation⟩ := h
  have houtput : block.shape.output = .value result.check (some result.label) := by
    rw [← happlied, Block.applyMutation, hmutation]
    rcases hkind with hkind | hkind <;>
      simp [hkind, Mutation.extend, Shape.ofKind, Shape.giving, hresult, Mutation.callOutput]
  have htype : block.outputType = .ok (some result.label) := by
    unfold Block.outputType
    rcases hkind with hkind | hkind <;> rw [hkind, houtput]
  unfold stated
  rw [htype]
  rfl

theorem stated_of_calls (h : block.Calls signature) {result : NumericType}
    (hresult : signature.returnType = result.label) : stated block = .ok (some result.label) := by
  have hfound : signature.result? = some (ClassType.resolve result.label .output) := by
    unfold CallSignature.result?
    rw [hresult, if_neg (by cases result <;> decide)]
  rw [stated_of_result? h hfound, label_resolve]

theorem step_of_calls (h : block.Calls signature) : step w table typeOf block = stated block := by
  unfold step
  rcases h.1 with hkind | hkind <;> rw [hkind]

variable {operation : Arithmetic}

theorem drops_eq_not_keepsType (h : block.chosen? "OP" Arithmetic.ofField? = some operation) :
    (decide (block.field? "OP" = some "POWER") || decide (block.field? "OP" = some "DIVIDE")) =
      !operation.keepsType := by
  obtain ⟨field, hfield, hread⟩ := Option.bind_eq_some_iff.1 h
  unfold Arithmetic.ofField? at hread
  split at hread <;> cases hread <;> simp [hfield, Arithmetic.keepsType]

theorem keeps_eq_keepsType {operation : SingleOperation}
    (h : block.chosen? "OP" SingleOperation.ofField? = some operation) :
    (decide (block.field? "OP" = some "NEG") || decide (block.field? "OP" = some "ABS")) =
      operation.keepsType := by
  obtain ⟨field, hfield, hread⟩ := Option.bind_eq_some_iff.1 h
  unfold SingleOperation.ofField? at hread
  split at hread <;> cases hread <;> simp [hfield, SingleOperation.keepsType]

section

variable {type left right : Option String}

theorem eq_of_step_number {value : Binary64} (hkind : block.kind = .mathNumber)
    (hliteral : block.literal = .ok value) (h : step w table typeOf block = .ok type) :
    type = some (if Numeral.fitsInt value then "int" else "double") := by
  rw [step, hkind] at h
  simp only at h
  rw [hliteral] at h
  exact (Except.ok.inj h).symm

/-- The type of an arithmetic block follows from those of its operands. -/
theorem eq_of_step_arithmetic (hkind : block.kind = .mathArithmetic)
    (hoperation : block.chosen? "OP" Arithmetic.ofField? = some operation)
    (hleft : ∀ type, inSocket w typeOf block "A" = .ok type → type = left)
    (hright : ∀ type, inSocket w typeOf block "B" = .ok type → type = right)
    (h : step w table typeOf block = .ok type) :
    type = if operation.keepsType then
        some (((widest? (left.bind NumericType.ofLabel?) (right.bind NumericType.ofLabel?)).map
          NumericType.label).getD "double")
      else some "double" := by
  rw [step, hkind] at h
  simp only at h
  rw [drops_eq_not_keepsType hoperation] at h
  cases hkeeps : operation.keepsType with
  | false =>
    rw [hkeeps, if_pos (by decide)] at h
    exact (Except.ok.inj h).symm
  | true =>
    rw [hkeeps, if_neg (by decide)] at h
    obtain ⟨_, hs, h⟩ := bind_eq_ok_iff.1 h
    obtain ⟨_, ht, h⟩ := bind_eq_ok_iff.1 h
    obtain ⟨s, hfirst, hs⟩ := bind_eq_ok_iff.1 hs
    obtain ⟨t, hsecond, ht⟩ := bind_eq_ok_iff.1 ht
    obtain rfl := hleft s hfirst
    obtain rfl := hright t hsecond
    cases hs
    cases ht
    exact (Except.ok.inj h).symm

theorem eq_of_step_single {operation : SingleOperation} (hkind : block.kind = .mathSingle)
    (hoperation : block.chosen? "OP" SingleOperation.ofField? = some operation)
    (hleft : ∀ type, inSocket w typeOf block "NUM" = .ok type → type = left)
    (h : step w table typeOf block = .ok type) :
    type = if operation.keepsType then some (left.getD "double") else some "double" := by
  rw [step, hkind] at h
  simp only at h
  rw [keeps_eq_keepsType hoperation] at h
  cases hkeeps : operation.keepsType with
  | false =>
    rw [hkeeps, if_neg (by decide)] at h
    exact (Except.ok.inj h).symm
  | true =>
    rw [hkeeps, if_pos rfl] at h
    obtain ⟨s, hs, h⟩ := bind_eq_ok_iff.1 h
    obtain rfl := hleft s hs
    exact (Except.ok.inj h).symm

end

theorem exists_of_within {depth : Nat} (h : within w table depth block = .ok type) :
    ∃ below, step w table (within w table below) block = .ok type := by
  cases depth with
  | zero => cases h
  | succ depth => exact ⟨depth, h⟩

/-- A type that is known of the root of a tree is the one found. -/
theorem eq_found_of_within (tree : NumberTree) : ∀ (depth : Nat) (block : Block)
    (type : Option String), tree.Holds w block → within w table depth block = .ok type →
    type = tree.found.map NumericType.label := by
  induction tree with
  | missing =>
    intro depth block type hholds
    exact hholds.elim
  | number value =>
    intro depth block type ⟨hkind, hliteral⟩ h
    obtain ⟨depth, h⟩ := exists_of_within h
    rw [eq_of_step_number hkind hliteral h, NumberTree.found]
    split <;> rfl
  | arithmetic operation left right ihleft ihright =>
    intro depth block type ⟨⟨hkind, _⟩, hoperation, hleft, hright⟩ h
    obtain ⟨depth, h⟩ := exists_of_within h
    rw [eq_of_step_arithmetic hkind hoperation (fun _ => eq_found_of_inSocket hleft (ihleft depth))
      (fun _ => eq_found_of_inSocket hright (ihright depth)) h, NumberTree.found]
    have hread : ∀ found : Option NumericType,
        (found.map NumericType.label).bind NumericType.ofLabel? = found := by
      rintro (_ | found) <;> simp
    rw [hread, hread]
    split
    · cases StaticType.widest? left.found right.found <;> rfl
    · rfl
  | single operation operand ih =>
    intro depth block type ⟨⟨hkind, _⟩, hoperation, hoperand⟩ h
    obtain ⟨depth, h⟩ := exists_of_within h
    rw [eq_of_step_single hkind hoperation (fun _ => eq_found_of_inSocket hoperand (ih depth)) h,
      NumberTree.found]
    split
    · cases operand.found <;> rfl
    · rfl
  | choice yes no ihyes ihno =>
    intro depth block type ⟨⟨hkind, _⟩, hyes, hno⟩ h
    obtain ⟨depth, h⟩ := exists_of_within h
    rw [step, hkind] at h
    obtain ⟨s, hs, h⟩ := bind_eq_ok_iff.1 h
    obtain ⟨t, ht, h⟩ := bind_eq_ok_iff.1 h
    obtain rfl := eq_found_of_inSocket hyes (ihyes depth) hs
    obtain rfl := eq_found_of_inSocket hno (ihno depth) ht
    rw [NumberTree.found]
    cases hs : yes.found <;> cases ht : no.found <;> rw [hs, ht] at h <;>
      obtain rfl := Except.ok.inj h <;> simp [widest?, merge_label]
  | call result =>
    intro depth block type ⟨signature, hcalls, hresult⟩ h
    obtain ⟨depth, h⟩ := exists_of_within h
    rw [step_of_calls hcalls, stated_of_calls hcalls hresult] at h
    exact (Except.ok.inj h).symm

end StaticType

end RobotBlocks
