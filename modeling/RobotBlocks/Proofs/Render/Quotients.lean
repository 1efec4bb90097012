import RobotBlocks.Proofs.Expr.NumericScope
import RobotBlocks.Proofs.Render.Course
import RobotBlocks.Proofs.Render.NumberDrawing

/-!
# Quotients in classes

In a class a division of whole numbers drops the fraction. A quotient is therefore written with a
conversion to `double` if both operands are known to be whole numbers. What is known of an operand is
the static type that is found for its block (`Operand.label?`); what the compiled target goes by is the
type of the expression (`Operand.numeric?`). The two differ: a missing operand is written as `0`, which
is an `int`, but nothing is found for it, and nothing is found either for a value of a wrapper class,
which is unboxed.

`quotient_is_floating_iff` says exactly which quotients keep their fraction. All do whose operands are
settled, that is, in which no operand is missing and all variables and results of methods have
primitive types.
-/

set_option autoImplicit false

namespace RobotBlocks

/-! ## Drafts with the same static types -/

/-- A draft goes on from another one and has the same static types. -/
def Draft.Advances (before after : Draft) : Prop :=
  before.Continues after ∧ after.types = before.types

theorem Draft.Advances.refl {draft : Draft} : draft.Advances draft := ⟨.refl, rfl⟩

theorem Draft.Advances.trans {first second third : Draft} (h : first.Advances second)
    (h' : second.Advances third) : first.Advances third :=
  ⟨h.1.trans h'.1, h'.2.trans h.2⟩

theorem Draft.steady_advances : Draft.Steady Draft.Advances where
  refl _ := .refl
  trans := .trans
  record draft events := ⟨Draft.steady_continues.record draft events, rfl⟩
  operate draft operation := ⟨Draft.steady_continues.operate draft operation, rfl⟩

/-! ## Results of methods -/

/-- A type of results that count as numbers. -/
inductive ResultType where
  | primitive (t : NumericType)
  | wrapped (t : NumericType)
  | char
  | character

namespace ResultType

def fullName : ResultType → String
  | primitive t => t.label
  | wrapped t => "java.lang." ++ t.wrapper
  | char => "char"
  | character => "java.lang.Character"

def label : ResultType → String
  | primitive t => t.label
  | wrapped t => t.wrapper
  | char => "char"
  | character => "Character"

def numeric : ResultType → NumericType
  | primitive t | wrapped t => t
  | char | character => .int

theorem label_resolve (type : ResultType) :
    (ClassType.resolve type.fullName .output).label = type.label := by
  cases type with
  | primitive t | wrapped t => cases t <;> decide +kernel
  | char | character => decide +kernel

theorem fullName_ne_void (type : ResultType) : type.fullName ≠ "void" := by
  cases type with
  | primitive t | wrapped t => cases t <;> decide
  | char | character => decide

theorem numeric_of_fullName {type : ResultType} {t : NumericType} (h : type.fullName = t.label) :
    type.numeric = t := by
  revert h
  cases type with
  | primitive s | wrapped s => cases s <;> cases t <;> decide
  | char | character => cases t <;> decide

end ResultType

/-- What stands in a socket for a number, down from there. -/
inductive Operand where
  | missing
  | number (value : Binary64)
  | arithmetic (operation : Arithmetic) (left right : Operand)
  | single (operation : SingleOperation) (operand : Operand)
  | named (name : String)
  | call (result : ResultType)

variable {scope : NumericScope}

theorem Expr.numeric?_zero : Expr.zero.numeric? scope = some .int := by
  rw [zero, numeric?]
  decide

namespace Operand

def Holds (w : Workspace) : Operand → Block → Prop
  | missing, _ => False
  | number value, block => block.kind = .mathNumber ∧ block.literal = .ok value
  | arithmetic operation left right, block =>
    (block.kind = .mathArithmetic ∧ block.shape = Shape.ofKind block.kind) ∧
      block.chosen? "OP" Arithmetic.ofField? = some operation ∧
      w.InSocket block "A" (left = missing) (left.Holds w) ∧
      w.InSocket block "B" (right = missing) (right.Holds w)
  | single operation operand, block =>
    (block.kind = .mathSingle ∧ block.shape = Shape.ofKind block.kind) ∧
      block.chosen? "OP" SingleOperation.ofField? = some operation ∧
      w.InSocket block "NUM" (operand = missing) (operand.Holds w)
  | named name, block => block.kind = .variablesGet ∧ block.field? "VAR" = some name
  | call result, block =>
    ∃ signature, block.Calls signature ∧ signature.returnType = result.fullName

variable (types : TypeTable)

/-- The static type that is found for an operand. -/
def label? : Operand → Option String
  | missing => none
  | number value => some (if Numeral.fitsInt value then "int" else "double")
  | arithmetic operation left right =>
    if operation.keepsType then
      some (((StaticType.widest? (left.label?.bind NumericType.ofLabel?)
        (right.label?.bind NumericType.ofLabel?)).map NumericType.label).getD "double")
    else some "double"
  | single operation operand =>
    if operation.keepsType then some (operand.label?.getD "double") else some "double"
  | named name => types.variableTypes.get? name
  | call result => some result.label

/-- An operand is known to be a whole number. -/
def isIntegral (operand : Operand) : Bool := isIntegralType (operand.label? types)

/-- The type that the expression of an operand counts as in a class. -/
def numeric? : Operand → Option NumericType
  | missing => some .int
  | number value => some (if Numeral.fitsInt value then .int else .double)
  | arithmetic operation left right =>
    left.numeric?.bind fun s => right.numeric?.map fun t =>
      match operation with
      | .add | .subtract | .multiply => (s.widest t).promoted
      | .divide =>
        if left.isIntegral types && right.isIntegral types then .double else (s.widest t).promoted
      | .power => .double
  | single operation operand =>
    operand.numeric?.map fun t => if operation.keepsType then t.promoted else .double
  | named name => NumericType.ofDeclared? (types.variableType name)
  | call result => some result.numeric

/-- The expression of an operand is a `float` or a `double`. -/
def IsFloating (operand : Operand) : Prop :=
  ∃ t, operand.numeric? types = some t ∧ t.isIntegral = false

/-- The quotient of two operands keeps its fraction in a class: the first is converted, or one of them
has a type of fractions by itself. -/
def KeepsFraction (left right : Operand) : Prop :=
  (left.isIntegral types = true ∧ right.isIntegral types = true ∧ left.numeric? types ≠ none) ∨
    left.IsFloating types ∨ right.IsFloating types

/-- Nothing is missing in an operand, and all variables and results in it have primitive types. -/
def isSettled : Operand → Bool
  | missing => false
  | number _ => true
  | arithmetic _ left right => left.isSettled && right.isSettled
  | single _ operand => operand.isSettled
  | named name => ((types.variableTypes.get? name).bind NumericType.ofLabel?).isSome
  | call result => (NumericType.ofLabel? result.label).isSome

end Operand

/-- A scope says of the variables what the class declares them as, and of the methods what their calls
say that they give. -/
structure NumericScope.Describes (scope : NumericScope) (setting : Setting) (draft : Draft) :
    Prop where
  ofName (name identifier : String) :
    draft.context.names.assigned? .variableNames name = some identifier →
      scope.ofName identifier = NumericType.ofDeclared? (draft.types.variableType name)
  ofMethod (id : String) (block : Block) : setting.workspace.get? id = some block →
    ∀ (signature : CallSignature) (result : ResultType),
      block.Calls signature → signature.returnType = result.fullName →
      ∀ depth before expr after,
        Yields ((setting.rendererWithin depth).value block) before expr after →
        scope.ofMethod expr = some result.numeric

namespace Operand

variable {types : TypeTable}

/-! ## The types that are found -/

section

variable {w : Workspace} {types : TypeTable} {typeOf : Block → StaticType.Answer} {block : Block}
variable {socket : String} {operand : Operand}

theorem eq_label?_of_inSocket {type : Option String}
    (hholds : w.InSocket block socket (operand = missing) (operand.Holds w))
    (htype : ∀ child type, operand.Holds w child → typeOf child = .ok type →
      type = operand.label? types)
    (h : StaticType.inSocket w typeOf block socket = .ok type) : type = operand.label? types := by
  refine StaticType.eq_of_inSocket hholds ?_ htype h
  rintro rfl
  rfl

/-- A type that is known of the root of an operand is the one found. -/
theorem eq_label?_of_within (operand : Operand) : ∀ (depth : Nat) (block : Block)
    (type : Option String), operand.Holds w block → StaticType.within w types depth block = .ok type →
    type = operand.label? types := by
  induction operand with
  | missing =>
    intro depth block type hholds
    exact hholds.elim
  | number value =>
    rintro depth block type ⟨hkind, hliteral⟩ h
    obtain ⟨depth, h⟩ := StaticType.exists_of_within h
    exact StaticType.eq_of_step_number hkind hliteral h
  | arithmetic operation left right ihleft ihright =>
    rintro depth block type ⟨⟨hkind, _⟩, hoperation, hleft, hright⟩ h
    obtain ⟨depth, h⟩ := StaticType.exists_of_within h
    exact StaticType.eq_of_step_arithmetic hkind hoperation
      (fun _ => eq_label?_of_inSocket hleft (ihleft depth))
      (fun _ => eq_label?_of_inSocket hright (ihright depth)) h
  | single operation operand ih =>
    rintro depth block type ⟨⟨hkind, _⟩, hoperation, hoperand⟩ h
    obtain ⟨depth, h⟩ := StaticType.exists_of_within h
    exact StaticType.eq_of_step_single hkind hoperation
      (fun _ => eq_label?_of_inSocket hoperand (ih depth)) h
  | named name =>
    rintro depth block type ⟨hkind, hfield⟩ h
    obtain ⟨depth, h⟩ := StaticType.exists_of_within h
    rw [StaticType.step, hkind] at h
    simp only at h
    rw [Block.requiredField, hfield] at h
    exact (Except.ok.inj h).symm
  | call result =>
    rintro depth block type ⟨signature, hcalls, hresult⟩ h
    obtain ⟨depth, h⟩ := StaticType.exists_of_within h
    have hfound : signature.result? = some (ClassType.resolve result.fullName .output) := by
      unfold CallSignature.result?
      rw [hresult, if_neg result.fullName_ne_void]
    rw [StaticType.step_of_calls hcalls, StaticType.stated_of_result? hcalls hfound,
      result.label_resolve] at h
    exact (Except.ok.inj h).symm

end

/-! ## Settled operands -/

/-- Of a settled operand it is known whether it is a whole number. -/
theorem exists_of_isSettled {operand : Operand} (h : operand.isSettled types = true) :
    ∃ s t, (operand.label? types).bind NumericType.ofLabel? = some s ∧
      operand.numeric? types = some t ∧ s.isIntegral = t.isIntegral := by
  induction operand with
  | missing => cases h
  | number value =>
    rw [label?, numeric?]
    split
    · exact ⟨.int, .int, rfl, rfl, rfl⟩
    · exact ⟨.double, .double, rfl, rfl, rfl⟩
  | arithmetic operation left right ihleft ihright =>
    obtain ⟨hleft, hright⟩ := Bool.and_eq_true_iff.1 h
    obtain ⟨s, t, hs, ht, hst⟩ := ihleft hleft
    obtain ⟨s', t', hs', ht', hst'⟩ := ihright hright
    have hkeeps : (s.widest s').isIntegral = (t.widest t').promoted.isIntegral := by
      rw [NumericType.isIntegral_promoted, NumericType.isIntegral_widest,
        NumericType.isIntegral_widest, hst, hst']
    rw [label?, numeric?, hs, hs', ht, ht']
    cases operation with
    | add | subtract | multiply =>
      refine ⟨s.widest s', (t.widest t').promoted, ?_, rfl, hkeeps⟩
      simp [Arithmetic.keepsType, StaticType.widest?]
    | divide =>
      -- If the conversion is not written, one of the operands is no whole number.
      have hintegral : (left.isIntegral types && right.isIntegral types) =
          (s.widest s').isIntegral := by
        rw [NumericType.isIntegral_widest, isIntegral, isIntegral, isIntegralType, isIntegralType,
          hs, hs']
        rfl
      rw [hintegral]
      refine ⟨.double, _, rfl, rfl, ?_⟩
      cases hwhole : (s.widest s').isIntegral with
      | true => rfl
      | false =>
        rw [hkeeps] at hwhole
        exact hwhole.symm
    | power => exact ⟨.double, .double, rfl, rfl, rfl⟩
  | single operation operand ih =>
    obtain ⟨s, t, hs, ht, hst⟩ := ih h
    rw [label?, numeric?, ht]
    cases operation.keepsType with
    | false => exact ⟨.double, .double, rfl, rfl, rfl⟩
    | true =>
      obtain ⟨label, hlabel, hread⟩ := Option.bind_eq_some_iff.1 hs
      refine ⟨s, t.promoted, ?_, rfl, hst.trans (NumericType.isIntegral_promoted t).symm⟩
      rw [hlabel]
      exact hread
  | named name =>
    obtain ⟨s, hs⟩ := Option.isSome_iff_exists.1 h
    obtain ⟨label, hlabel, hread⟩ := Option.bind_eq_some_iff.1 hs
    obtain rfl := NumericType.ofLabel?_eq_some_iff.1 hread
    refine ⟨s, s, hs, ?_, rfl⟩
    rw [numeric?, TypeTable.variableType, hlabel]
    exact NumericType.ofDeclared?_label s
  | call result =>
    cases result with
    | primitive t => exact ⟨t, t, NumericType.ofLabel?_label t, rfl, rfl⟩
    | wrapped t => cases t <;> cases h
    | char | character => cases h

theorem keepsFraction_of_isSettled {left right : Operand} (hleft : left.isSettled types = true)
    (hright : right.isSettled types = true) : left.KeepsFraction types right := by
  obtain ⟨s, t, hs, ht, hst⟩ := exists_of_isSettled hleft
  obtain ⟨s', t', hs', ht', hst'⟩ := exists_of_isSettled hright
  cases hwhole : t.isIntegral with
  | false => exact .inr (.inl ⟨t, ht, hwhole⟩)
  | true =>
    cases hwhole' : t'.isIntegral with
    | false => exact .inr (.inr ⟨t', ht', hwhole'⟩)
    | true =>
      refine .inl ⟨?_, ?_, by simp [ht]⟩
      · rw [isIntegral, isIntegralType, hs]
        exact hst.trans hwhole
      · rw [isIntegral, isIntegralType, hs']
        exact hst'.trans hwhole'

/-! ## What is rendered -/

theorem isFloating_congr {x : Expr} {operand : Operand}
    (h : x.numeric? scope = operand.numeric? types) :
    x.IsFloating scope ↔ operand.IsFloating types := by
  unfold Expr.IsFloating IsFloating
  rw [h]

/-- The operands of a written division and what they are drawn from. -/
theorem isFloating_or_iff {x y : Expr} {left right : Operand}
    (hx : x.numeric? scope = left.numeric? types) (hy : y.numeric? scope = right.numeric? types) :
    ((if left.isIntegral types && right.isIntegral types then .cast "double" x else x).IsFloating
        scope ∨ y.IsFloating scope) ↔ left.KeepsFraction types right := by
  rw [isFloating_congr hy]
  unfold KeepsFraction
  split
  · rename_i hwhole
    obtain ⟨hleft, hright⟩ := Bool.and_eq_true_iff.1 hwhole
    have hnumber : left.IsFloating types → left.numeric? types ≠ none := by
      rintro ⟨t, ht, -⟩
      simp [ht]
    rw [Expr.isFloating_cast_double, hx, Option.isSome_iff_ne_none]
    tauto
  · rename_i hfraction
    rw [isFloating_congr hx]
    rw [Bool.and_eq_true_iff] at hfraction
    tauto

section

variable {scope : NumericScope} {last : Draft} {r : Renderer} {block : Block} {socket : String}
variable {left right operand : Operand} {before after : Draft} {expr : Expr}

/-- An operand stands in a socket, and what is rendered there before a draft counts as the operand. -/
structure StandsIn (scope : NumericScope) (last : Draft) (r : Renderer) (block : Block)
    (socket : String) (operand : Operand) : Prop where
  holds : r.setting.workspace.InSocket block socket (operand = missing)
    (operand.Holds r.setting.workspace)
  counts (before : Draft) (expr : Expr) (after : Draft) :
    Yields (r.operand block socket) before expr after → after.Advances last →
      expr.numeric? scope = operand.numeric? last.types

theorem eq_of_yields_isIntegral {integral : Bool}
    (hoperand : operand.StandsIn scope last r block socket)
    (h : Yields (r.isIntegral block socket) before integral after) :
    integral = operand.isIntegral before.types ∧ after = before := by
  replace h := yields_get_bind.1 h
  obtain ⟨type, middle, hlifted, h⟩ := yields_bind.1 h
  obtain ⟨htype, rfl⟩ := yields_liftM.1 hlifted
  obtain ⟨rfl, rfl⟩ := yields_pure.1 h
  rw [eq_label?_of_inSocket hoperand.holds (eq_label?_of_within operand _) htype]
  exact ⟨rfl, rfl⟩

section Operands

variable (hjava : r.setting.target = .java) (hmoves : ∀ child, Moves Draft.Advances (r.value child))
variable (hleft : left.StandsIn scope last r block "A") (hright : right.StandsIn scope last r block "B")

include hleft hright

include hjava in
theorem eq_of_yields_dropsFraction {drops : Bool}
    (h : Yields (r.dropsFraction block) before drops after) :
    drops = (left.isIntegral before.types && right.isIntegral before.types) ∧ after = before := by
  unfold Renderer.dropsFraction at h
  rw [hjava] at h
  obtain ⟨integral, middle, hintegral, h⟩ := yields_bind.1 h
  obtain ⟨rfl, rfl⟩ := eq_of_yields_isIntegral hleft hintegral
  split at h
  · rename_i hwhole
    rw [hwhole, Bool.true_and]
    exact eq_of_yields_isIntegral hright h
  · rename_i hwhole
    obtain ⟨rfl, rfl⟩ := yields_pure.1 h
    rw [Bool.eq_false_iff.2 hwhole, Bool.false_and]
    exact ⟨rfl, rfl⟩

include hmoves

/-- The values in the sockets of a block, rendered one after the other before a draft. -/
theorem count_operands {x y : Expr} {middle : Draft}
    (hx : Yields (r.operand block "A") before x middle)
    (hy : Yields (r.operand block "B") middle y after) (hlast : after.Advances last) :
    before.types = last.types ∧ x.numeric? scope = left.numeric? last.types ∧
      y.numeric? scope = right.numeric? last.types := by
  have hfirst := (Draft.steady_advances.operandOr hmoves block "A" _).of_yields hx
  have hsecond := (Draft.steady_advances.operandOr hmoves block "B" _).of_yields hy
  have hmiddle := hsecond.trans hlast
  exact ⟨(hfirst.trans hmiddle).2.symm, hleft.counts _ _ _ hx hmiddle, hright.counts _ _ _ hy hlast⟩

theorem numeric?_of_yields_binary {operator : Operator} (hoperator : Expr.isArithmetic operator = true)
    (h : Yields (r.binary block operator) before expr after) (hlast : after.Advances last) :
    expr.numeric? scope = (left.numeric? last.types).bind fun s =>
      (right.numeric? last.types).map fun t => (s.widest t).promoted := by
  obtain ⟨x, _, hx, h⟩ := yields_bind.1 h
  obtain ⟨y, hy, rfl⟩ := yields_bind_pure.1 h
  obtain ⟨-, hx, hy⟩ := count_operands hmoves hleft hright hx hy hlast
  rw [Expr.numeric?_binary hoperator, hx, hy]

include hjava

/-- The dividend of a quotient is converted if both operands are known to be whole numbers. -/
theorem exists_of_yields_quotient (h : Yields (r.quotient block) before expr after)
    (hlast : after.Advances last) :
    ∃ x y, expr = .binary .divide
        (if left.isIntegral last.types && right.isIntegral last.types then .cast "double" x else x) y ∧
      x.numeric? scope = left.numeric? last.types ∧
      y.numeric? scope = right.numeric? last.types := by
  obtain ⟨drops, middle, hdrops, h⟩ := yields_bind.1 h
  obtain ⟨rfl, rfl⟩ := eq_of_yields_dropsFraction hjava hleft hright hdrops
  split at h
  · rename_i hwhole
    obtain ⟨x, _, hx, h⟩ := yields_bind.1 h
    obtain ⟨y, hy, rfl⟩ := yields_bind_pure.1 h
    obtain ⟨htypes, hx, hy⟩ := count_operands hmoves hleft hright hx hy hlast
    rw [htypes] at hwhole
    exact ⟨x, y, by rw [if_pos hwhole], hx, hy⟩
  · rename_i hfraction
    obtain ⟨x, _, hx, h⟩ := yields_bind.1 h
    obtain ⟨y, hy, rfl⟩ := yields_bind_pure.1 h
    obtain ⟨htypes, hx, hy⟩ := count_operands hmoves hleft hright hx hy hlast
    rw [htypes] at hfraction
    exact ⟨x, y, by rw [if_neg hfraction], hx, hy⟩

theorem numeric?_of_yields_arithmetic {operation : Arithmetic}
    (hoperation : block.chosen? "OP" Arithmetic.ofField? = some operation)
    (h : Yields (r.arithmetic block) before expr after) (hlast : after.Advances last) :
    expr.numeric? scope = (arithmetic operation left right).numeric? last.types := by
  rw [Renderer.arithmetic_of_chosen hoperation] at h
  cases operation with
  | add | subtract | multiply => exact numeric?_of_yields_binary hmoves hleft hright rfl h hlast
  | divide =>
    obtain ⟨x, y, rfl, hx, hy⟩ := exists_of_yields_quotient hjava hmoves hleft hright h hlast
    rw [Expr.numeric?_binary rfl, hy, numeric?]
    split
    · rw [Expr.numeric?_cast_double, hx]
      cases left.numeric? last.types <;> simp [NumericType.promoted_widest_double]
    · rw [hx]
  | power =>
    obtain ⟨x, _, y, hx, hy, rfl⟩ := Renderer.exists_of_yields_power h
    obtain ⟨-, hx, hy⟩ := count_operands hmoves hleft hright hx hy hlast
    rw [Expr.numeric?_pow, hx, hy, numeric?]

end Operands

theorem numeric?_of_yields_single (hjava : r.setting.target = .java) {operation : SingleOperation}
    (hoperation : block.chosen? "OP" SingleOperation.ofField? = some operation)
    (hoperand : operand.StandsIn scope last r block "NUM")
    (h : Yields (r.single block) before expr after) (hlast : after.Advances last) :
    expr.numeric? scope = (single operation operand).numeric? last.types := by
  obtain ⟨x, hx, hexpr⟩ := Renderer.exists_of_yields_single hjava hoperation h
  rw [numeric?, ← hoperand.counts _ _ _ hx hlast]
  cases hexpr with
  | negative =>
    rw [Expr.numeric?]
    rfl
  | powerOfTen =>
    rw [Expr.numeric?_pow]
    rfl
  | function hfunction =>
    cases operation with
    | negative | powerOfTen => cases hfunction
    | absolute =>
      cases hfunction
      exact Expr.numeric?_abs
    | root | naturalLogarithm | decimalLogarithm | exponential =>
      cases hfunction
      exact Expr.numeric?_call_one (by decide)

end

/-! ## Operands in classes -/

section

variable {setting : Setting} {scope : NumericScope} {last : Draft} {depth : Nat} {block : Block}

/-- An operand stands in a socket if what is rendered for its root counts as the operand. -/
theorem standsIn (hjava : setting.target = .java) {part : Operand} {socket : String}
    (hsocket : block.TakesNumber socket .zero) (hshape : block.shape = Shape.ofKind block.kind)
    (hpart : ∀ id child before expr after, setting.workspace.get? id = some child →
      part.Holds setting.workspace child →
      Yields ((setting.rendererWithin depth).value child) before expr after → after.Advances last →
      expr.numeric? scope = part.numeric? last.types)
    (hholds : setting.workspace.InSocket block socket (part = .missing)
      (part.Holds setting.workspace)) :
    part.StandsIn scope last (setting.rendererWithin depth) block socket := by
  refine ⟨by simpa using hholds, fun before expr after h hlast => ?_⟩
  rcases Setting.cases_of_yields_operand hjava hsocket hshape hholds h with
    ⟨rfl, rfl⟩ | ⟨id, child, start, middle, hget, hchild, hvalue, hmiddle⟩
  · exact Expr.numeric?_zero
  · exact hpart id child start expr middle hget hchild hvalue
      ((hmiddle Draft.steady_advances).trans hlast)

/-- The expression that is rendered for the root of an operand counts as the operand. -/
theorem numeric?_of_yields (hjava : setting.target = .java)
    (hdescribes : scope.Describes setting last) (operand : Operand) :
    ∀ (depth : Nat) (id : String) (block : Block) (before : Draft) (expr : Expr) (after : Draft),
      setting.workspace.get? id = some block → operand.Holds setting.workspace block →
      Yields ((setting.rendererWithin depth).value block) before expr after → after.Advances last →
      expr.numeric? scope = operand.numeric? last.types := by
  induction operand with
  | missing =>
    intro depth id block before expr after _ hholds
    exact hholds.elim
  | number value =>
    rintro depth id block before expr after _ ⟨hkind, hliteral⟩ h hlast
    obtain ⟨below, h⟩ := Setting.exists_yields_sharedValue hjava (by simp [hkind]) h
    rw [Renderer.sharedValue, hkind] at h
    obtain ⟨rfl, -⟩ := yields_pure.1 (h.of_liftM_bind hliteral)
    rw [Setting.setting_rendererWithin, hjava, Expr.numeric?, Numeral.literalType?_literal, numeric?]
  | arithmetic operation left right ihleft ihright =>
    rintro depth id block before expr after _ ⟨⟨hkind, hshape⟩, hoperation, hleft, hright⟩ h hlast
    obtain ⟨below, h⟩ := Setting.exists_yields_sharedValue hjava (by simp [hkind]) h
    rw [Renderer.sharedValue, hkind] at h
    refine numeric?_of_yields_arithmetic (by simpa using hjava)
      (Draft.steady_advances.moves_rendererWithin setting below).1 ?_ ?_ hoperation h hlast
    · exact standsIn hjava (.arithmetic hkind (.inl rfl)) hshape (ihleft below) hleft
    · exact standsIn hjava (.arithmetic hkind (.inr rfl)) hshape (ihright below) hright
  | single operation operand ih =>
    rintro depth id block before expr after _ ⟨⟨hkind, hshape⟩, hoperation, hoperand⟩ h hlast
    obtain ⟨below, h⟩ := Setting.exists_yields_sharedValue hjava (by simp [hkind]) h
    rw [Renderer.sharedValue, hkind] at h
    refine numeric?_of_yields_single (by simpa using hjava) hoperation ?_ h hlast
    exact standsIn hjava (.single hkind) hshape (ih below) hoperand
  | named name =>
    rintro depth id block before expr after _ ⟨hkind, hfield⟩ h hlast
    obtain ⟨below, h⟩ := Setting.exists_yields_sharedValue hjava (by simp [hkind]) h
    rw [Renderer.sharedValue, hkind] at h
    obtain ⟨identifier, hidentifier, rfl⟩ :=
      yields_bind_pure.1 (h.of_liftM_bind (Block.requiredField_eq_ok hfield))
    have hassigned := (Render.context_of_identifierFor hidentifier).2
    rw [Expr.numeric?, numeric?]
    exact hdescribes.ofName _ _ (hlast.1.extends _ _ _ hassigned)
  | call result =>
    rintro depth id block before expr after hget ⟨signature, hcalls, hresult⟩ h hlast
    have hmethod := hdescribes.ofMethod id block hget signature result hcalls hresult _ _ _ _ h
    obtain ⟨receiver, member, arguments, rfl⟩ := Setting.exists_method_of_calls hjava hcalls h
    rw [Expr.numeric?, hmethod, numeric?]

end

end Operand

/-- In a class, a quotient has an operand with a type of fractions exactly if both operands are known
to be whole numbers, so that the first is converted, or if one of them has such a type by itself. This
is always so if both operands are settled. -/
theorem quotient_is_floating_iff {setting : Setting} (hjava : setting.target = .java)
    {scope : NumericScope} {left right : Operand} {depth : Nat} {block : Block} {before after : Draft}
    {expr : Expr} (hholds : (Operand.arithmetic .divide left right).Holds setting.workspace block)
    (hyields : Yields ((setting.rendererWithin depth).value block) before expr after)
    (hdescribes : scope.Describes setting after) :
    ∃ x y, expr = .binary .divide x y ∧
      ((x.IsFloating scope ∨ y.IsFloating scope) ↔ left.KeepsFraction after.types right) ∧
      (left.isSettled after.types = true → right.isSettled after.types = true →
        x.IsFloating scope ∨ y.IsFloating scope) := by
  obtain ⟨⟨hkind, hshape⟩, hoperation, hleft, hright⟩ := hholds
  obtain ⟨below, h⟩ := Setting.exists_yields_sharedValue hjava (by simp [hkind]) hyields
  simp only [Renderer.sharedValue, hkind] at h
  rw [Renderer.arithmetic_of_chosen hoperation] at h
  have hcounts := fun operand => Operand.numeric?_of_yields hjava hdescribes operand below
  obtain ⟨x, y, rfl, hx, hy⟩ := Operand.exists_of_yields_quotient (by simpa using hjava)
    (Draft.steady_advances.moves_rendererWithin setting below).1
    (Operand.standsIn hjava (.arithmetic hkind (.inl rfl)) hshape (hcounts left) hleft)
    (Operand.standsIn hjava (.arithmetic hkind (.inr rfl)) hshape (hcounts right) hright) h .refl
  have hiff := Operand.isFloating_or_iff hx hy
  exact ⟨_, y, rfl, hiff, fun hsettled hsettled' =>
    hiff.2 (Operand.keepsFraction_of_isSettled hsettled hsettled')⟩

/-! ## Quotients of results and of missing values -/

namespace QuotientSample

def method (result : ResultType) : CallSignature where
  lookup := "com.example.H.i()"
  returnType := result.fullName
  comment := ""
  accessMethod := "callJava"
  conversion := ""
  className := "com.example.H"
  simpleName := "H"
  parameters := []

def call (result : ResultType) : Block :=
  Block.applyMutation
    { id := "a", typeName := "misc_callJava_return", kind := .callStatic true
      fields := Dict.ofList [("METHOD_NAME", "i")]
      mutation := some (.call (method result)), parent := some (.value "q" "A") }

def two (socket : String) : Block :=
  { id := "b", typeName := "math_number", kind := .mathNumber
    fields := Dict.ofList [("NUM", "2")], parent := some (.value "q" socket) }

def quotient (operands : List (String × String)) : Block :=
  { id := "q", typeName := "math_arithmetic", kind := .mathArithmetic
    fields := Dict.ofList [("OP", "DIVIDE")], values := Dict.ofList operands }

def resultSetting (result : ResultType) : Setting where
  workspace :=
    { blocks := [quotient [("A", "a"), ("B", "b")], call result, two "B"]
      distinct := show ["q", "a", "b"].Nodup by decide }
  target := .java

def missingSetting : Setting where
  workspace :=
    { blocks := [quotient [("A", "b")], two "A"], distinct := by decide }
  target := .java

def given : Expr := .method (.verbatim "H") "i" []

theorem exists_yields_boxed :
    ∃ after, Yields ((resultSetting (.wrapped .int)).renderer.value
      (quotient [("A", "a"), ("B", "b")])) {} (.binary .divide given (.number "2")) after :=
  ⟨_, yields_of_fst_run_eq (by with_unfolding_all rfl)⟩

theorem exists_yields_missing :
    ∃ after, Yields (missingSetting.renderer.value (quotient [("A", "b")])) {}
      (.binary .divide (.number "2") .zero) after :=
  ⟨_, yields_of_fst_run_eq (by with_unfolding_all rfl)⟩

theorem exists_yields_primitive :
    ∃ after, Yields ((resultSetting (.primitive .int)).renderer.value
      (quotient [("A", "a"), ("B", "b")])) {}
      (.binary .divide (.cast "double" given) (.number "2")) after ∧
      after.context.names.assigned = [] :=
  ⟨_, yields_of_fst_run_eq (by with_unfolding_all rfl), by with_unfolding_all rfl⟩

theorem known_literal_two : Known (two "B").literal := by
  cases hread : (two "B").literal with
  | ok value => exact ⟨value, rfl⟩
  | error fault =>
    have hnumber : (two "B").literal.toOption.isSome = true := by decide
    rw [hread] at hnumber
    cases hnumber

theorem not_isFloating_two (scope : NumericScope) : ¬ (Expr.number "2").IsFloating scope := by
  refine Expr.not_isFloating (t := .int) ?_ rfl
  rw [Expr.numeric?]
  decide

/-- A result of class `Integer` is divided as a whole number, and so is any whole number by a missing
value. -/
theorem unconverted_quotients_truncate :
    ((method (.wrapped .int)).returnType = "java.lang.Integer" ∧
      ∃ expr after, Yields ((resultSetting (.wrapped .int)).renderer.value
          (quotient [("A", "a"), ("B", "b")])) {} expr after ∧ expr.print = "H.i() / 2" ∧
        ∃ x y, expr = .binary .divide x y ∧ ∀ scope : NumericScope,
          scope.ofMethod x = some .int → ¬ x.IsFloating scope ∧ ¬ y.IsFloating scope) ∧
    ∃ expr after, Yields (missingSetting.renderer.value (quotient [("A", "b")])) {} expr after ∧
      expr.print = "2 / 0" ∧
      ∃ x y, expr = .binary .divide x y ∧ ∀ scope : NumericScope,
        ¬ x.IsFloating scope ∧ ¬ y.IsFloating scope := by
  constructor
  · obtain ⟨after, hyields⟩ := exists_yields_boxed
    refine ⟨rfl, _, after, hyields, by decide, _, _, rfl, fun scope hresult => ?_⟩
    refine ⟨Expr.not_isFloating (t := .int) ?_ rfl, not_isFloating_two scope⟩
    rw [given, Expr.numeric?, ← given, hresult]
  · obtain ⟨after, hyields⟩ := exists_yields_missing
    refine ⟨_, after, hyields, by decide, _, _, rfl, fun scope => ?_⟩
    exact ⟨not_isFloating_two scope, Expr.not_isFloating Expr.numeric?_zero rfl⟩

/-- In this class all methods give numbers of type `int`. -/
def intScope : NumericScope := ⟨fun _ => none, fun _ => some .int⟩

theorem describes_intScope {draft : Draft} (h : draft.context.names.assigned = []) :
    intScope.Describes (resultSetting (.primitive .int)) draft where
  ofName name identifier hassigned := by
    rw [NameTable.assigned?, h] at hassigned
    cases hassigned
  ofMethod id block hget signature result hcalls hresult depth before expr after _ := by
    obtain ⟨hkind, -, hmutation⟩ := hcalls
    have hmem := List.mem_of_find?_eq_some hget
    rcases List.mem_cons.1 hmem with rfl | hmem
    · rcases hkind with hkind | hkind <;> cases hkind
    · rcases List.mem_cons.1 hmem with rfl | hmem
      · obtain rfl : method (.primitive .int) = signature := by
          cases hmutation
          rfl
        exact congrArg some (ResultType.numeric_of_fullName (t := .int) hresult.symm).symm
      · obtain rfl := List.mem_singleton.1 hmem
        cases hmutation

/-- The quotient of a result of type `int` and two is converted and keeps its fraction. -/
theorem int_quotient_keeps_fraction :
    ∃ x y after, Yields ((resultSetting (.primitive .int)).renderer.value
        (quotient [("A", "a"), ("B", "b")])) {} (.binary .divide x y) after ∧
      (x.IsFloating intScope ∨ y.IsFloating intScope) := by
  obtain ⟨after, hyields, hnames⟩ := exists_yields_primitive
  obtain ⟨value, hliteral⟩ := known_literal_two
  have hholds : (Operand.arithmetic .divide (.call (.primitive .int)) (.number value)).Holds
      (resultSetting (.primitive .int)).workspace (quotient [("A", "a"), ("B", "b")]) :=
    ⟨⟨rfl, rfl⟩, rfl, ⟨method (.primitive .int), ⟨.inl rfl, rfl, rfl⟩, rfl⟩, rfl, hliteral⟩
  obtain ⟨x, y, hexpr, -, hsettled⟩ :=
    quotient_is_floating_iff rfl hholds hyields (describes_intScope hnames)
  rw [hexpr] at hyields
  exact ⟨x, y, after, hyields, hsettled rfl rfl⟩

end QuotientSample

end RobotBlocks
