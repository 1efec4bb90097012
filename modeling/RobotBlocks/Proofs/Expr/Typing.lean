import RobotBlocks.Proofs.Numeral.LiteralType

/-!
# Static types of numeric expressions

The types that the rules of the compiled target give to expressions, as far as they are about numbers.
Operands of arithmetic are promoted to `int` at least, a choice between a number and `null` has the
wrapper class of the type of the number, and a conversion of such a value is allowed only to types that
are no narrower. What an expression does not tell itself is in `Declarations`.

An expression fits a place of a primitive type if it has that type or a narrower one.
-/

set_option autoImplicit false

namespace RobotBlocks

namespace NumericType

/-- The type of an operand of arithmetic: no narrower than `int`. -/
def promoted (t : NumericType) : NumericType := int.widest t

/-- Whether a type is one of those that arithmetic promotes. -/
def isSmall (t : NumericType) : Bool := t.rank < int.rank

theorem rank_widest (s t : NumericType) : (s.widest t).rank = max s.rank t.rank := by
  unfold widest
  split <;> omega

theorem rank_promoted (t : NumericType) : t.promoted.rank = max int.rank t.rank := rank_widest int t

end NumericType

/-- The type of an expression that stands for a number or for nothing. -/
inductive ValueType where
  | primitive (type : NumericType)
  | boxed (type : NumericType)
  | null
  deriving DecidableEq, Repr

namespace ValueType

/-- The primitive type that a value counts as in arithmetic. -/
def number? : ValueType → Option NumericType
  | primitive t | boxed t => some t
  | null => none

/-- The type of a value after a conversion, if that is allowed. -/
def cast? (target : NumericType) : ValueType → Option ValueType
  | primitive _ => some (primitive target)
  | boxed t => if t.rank ≤ target.rank then some (primitive target) else none
  | null => none

end ValueType

/-- What is known about the expressions of a class from elsewhere. -/
structure Declarations where
  /-- The type of the result of a call of a method. -/
  result : Expr → Option NumericType
  /-- Whether the value of a constant expression is one of a type. -/
  holds : NumericType → Expr → Bool

/-- The type of a choice between two values. Two small types have the wider of them, and a constant of
type `int` takes the small type of the other value if that holds it. -/
def choiceType (declarations : Declarations) (constant constant' : Option Expr) :
    ValueType → ValueType → ValueType
  | .null, .null => .null
  | .null, .primitive t | .null, .boxed t | .primitive t, .null | .boxed t, .null => .boxed t
  | .boxed s, .boxed t => if s = t then .boxed s else .primitive (ofTypes s t)
  | .boxed s, .primitive t | .primitive s, .boxed t | .primitive s, .primitive t =>
    .primitive (ofTypes s t)
where
  /-- The type of a choice between two numbers. -/
  ofTypes (s t : NumericType) : NumericType :=
    if s = t then s
    else if s.isSmall && t.isSmall then s.widest t
    else if s.isSmall && t = .int && constant'.any (declarations.holds s) then s
    else if t.isSmall && s = .int && constant.any (declarations.holds t) then t
    else (s.widest t).promoted

section

variable {declarations : Declarations} {constant constant' : Option Expr} {v v' : ValueType}
variable {s t : NumericType}

/-- A choice between two numbers is a number, of a primitive type if one of them is. -/
theorem choiceType_of_number? (hv : v.number? = some s) (hv' : v'.number? = some t) :
    (choiceType declarations constant constant' v v').number? =
        some (choiceType.ofTypes declarations constant constant' s t) ∧
      (v = .primitive s ∨ v' = .primitive t → choiceType declarations constant constant' v v' =
        .primitive (choiceType.ofTypes declarations constant constant' s t)) := by
  cases v with
  | null => cases hv
  | primitive s =>
    cases hv
    cases v' with
    | null => cases hv'
    | primitive t | boxed t =>
      obtain rfl := Option.some.inj hv'
      exact ⟨rfl, fun _ => rfl⟩
  | boxed s =>
    cases hv
    cases v' with
    | null => cases hv'
    | primitive t =>
      obtain rfl := Option.some.inj hv'
      exact ⟨rfl, fun _ => rfl⟩
    | boxed t =>
      obtain rfl := Option.some.inj hv'
      refine ⟨?_, by simp⟩
      by_cases hst : s = t
      · simp [choiceType, choiceType.ofTypes, hst, ValueType.number?]
      · simp [choiceType, hst, ValueType.number?]

/-- A choice between a number and nothing has the wrapper class of the number. -/
theorem choiceType_null_right (hv : v.number? = some s) :
    choiceType declarations constant constant' v .null = .boxed s := by
  cases v with
  | null => cases hv
  | primitive | boxed =>
    cases hv
    rfl

theorem choiceType_null_left (hv : v.number? = some s) :
    choiceType declarations constant constant' .null v = .boxed s := by
  cases v with
  | null => cases hv
  | primitive | boxed =>
    cases hv
    rfl

end

theorem rank_ofTypes_le (declarations : Declarations) (constant constant' : Option Expr)
    (s t : NumericType) : (choiceType.ofTypes declarations constant constant' s t).rank ≤
      max NumericType.int.rank (max s.rank t.rank) := by
  have hwidest := NumericType.rank_widest s t
  have hpromoted := NumericType.rank_promoted (s.widest t)
  unfold choiceType.ofTypes
  split
  · omega
  · split
    · omega
    · split
      · omega
      · split <;> omega

/-- A choice between two small types without constants: the wider one, or `int` if one of the values
was promoted. -/
theorem ofTypes_of_isSmall (declarations : Declarations) (promoted promoted' : Bool)
    {s t : NumericType} (hs : s.isSmall = true) (ht : t.isSmall = true) :
    choiceType.ofTypes declarations none none (if promoted then .int else s)
        (if promoted' then .int else t) =
      if promoted || promoted' then .int else s.widest t := by
  cases promoted <;> cases promoted' <;> cases s <;> cases hs <;> cases t <;> cases ht <;> rfl

/-- The functions that take any numbers and give a `double`, with the number of their arguments. -/
def doubleFunctions : List (String × Nat) :=
  [("Math.pow", 2), ("Math.sqrt", 1), ("Math.log", 1), ("Math.log10", 1), ("Math.exp", 1)]

/-- The type of a call of a function, given which numbers its arguments are. -/
def callType? (function : String) (arguments : List (Option NumericType)) : Option ValueType :=
  if arguments.all Option.isSome && doubleFunctions.contains (function, arguments.length) then
    some (.primitive .double)
  else
    match function, arguments with
    | "Math.abs", [some t] => some (.primitive t.promoted)
    | _, _ => none

variable {function : String}

theorem callType?_eq_none {arguments : List (Option NumericType)} (h : none ∈ arguments) :
    callType? function arguments = none := by
  unfold callType?
  rw [if_neg]
  · split
    · simp at h
    · rfl
  · intro hall
    have hsome := List.all_eq_true.1 (Bool.and_eq_true_iff.1 hall).1 none h
    cases hsome

namespace Expr

def isConstant : Expr → Bool
  | number _ | text .. => true
  | name word => word = "true" || word = "false"
  | negate operand | not operand | cast _ operand => operand.isConstant
  | binary _ left right => left.isConstant && right.isConstant
  | conditional test yes no => test.isConstant && yes.isConstant && no.isConstant
  | _ => false

def constant? (expr : Expr) : Option Expr := if expr.isConstant then some expr else none

def isArithmetic (operator : Operator) : Bool := ["+", "-", "*", "/"].contains operator.symbol

mutual

/-- The type of an expression, if it is a number or `null`. -/
def type? (declarations : Declarations) : Expr → Option ValueType
  | number literal => (Numeral.literalType? literal).map .primitive
  | name word => if word = "null" then some .null else none
  | call function arguments => callType? function (numbers declarations arguments)
  | method receiver member arguments =>
    (declarations.result (method receiver member arguments)).map .primitive
  | negate operand =>
    ((operand.type? declarations).bind ValueType.number?).map fun t => .primitive t.promoted
  | cast type operand =>
    (NumericType.ofLabel? type).bind fun target =>
      (operand.type? declarations).bind (ValueType.cast? target)
  | binary operator left right =>
    if isArithmetic operator then
      ((left.type? declarations).bind ValueType.number?).bind fun s =>
        ((right.type? declarations).bind ValueType.number?).map fun t =>
          .primitive (s.widest t).promoted
    else none
  | conditional _ yes no =>
    (yes.type? declarations).bind fun s =>
      (no.type? declarations).map fun t =>
        choiceType declarations yes.constant? no.constant? s t
  | _ => none

def numbers (declarations : Declarations) : List Expr → List (Option NumericType)
  | [] => []
  | expr :: rest =>
    (expr.type? declarations).bind ValueType.number? :: numbers declarations rest

end

def number? (declarations : Declarations) (expr : Expr) : Option NumericType :=
  (expr.type? declarations).bind ValueType.number?

/-- An expression has a primitive type or converts to it without a cast. -/
def Fits (declarations : Declarations) (target : NumericType) (expr : Expr) : Prop :=
  ∃ t, expr.type? declarations = some (.primitive t) ∧ t.rank ≤ target.rank

section

variable {declarations : Declarations} {x y : Expr}

theorem type?_negate : (negate x).type? declarations =
    (x.number? declarations).map fun t => .primitive t.promoted := by
  rw [type?, number?]

theorem type?_binary {operator : Operator} (h : isArithmetic operator = true) :
    (binary operator x y).type? declarations =
      (x.number? declarations).bind fun s =>
        (y.number? declarations).map fun t => .primitive (s.widest t).promoted := by
  rw [type?, if_pos h, number?, number?]

theorem number?_cast_double : (cast "double" x).number? declarations =
    (x.number? declarations).map fun _ => .double := by
  have hrank : ∀ t : NumericType, t.rank ≤ NumericType.double.rank := by
    intro t
    cases t <;> decide
  unfold number?
  rw [type?]
  cases x.type? declarations with
  | none => rfl
  | some type =>
    cases type with
    | primitive t => rfl
    | boxed t => simp [NumericType.ofLabel?, ValueType.cast?, ValueType.number?, hrank]
    | null => rfl

theorem type?_call_one : (call function [x]).type? declarations =
    callType? function [x.number? declarations] := by
  simp [type?, numbers, number?]

theorem type?_call_two : (call function [x, y]).type? declarations =
    callType? function [x.number? declarations, y.number? declarations] := by
  simp [type?, numbers, number?]

end

end Expr

end RobotBlocks
