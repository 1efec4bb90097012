import RobotBlocks.Proofs.Expr.Typing

/-!
# Expressions in the scope of a class

What an expression counts as in arithmetic depends on what the class declares around it: the types of
its variables and of the results of the methods that it calls. A `NumericScope` says which numbers
these are, and `Expr.numeric?` follows the rules of the compiled target from there. Values of wrapper
classes are unboxed before they are computed with, so that only the primitive type counts.
-/

set_option autoImplicit false

namespace RobotBlocks

namespace NumericType

/-- The class that wraps the values of a type. -/
def wrapper : NumericType → String
  | byte => "Byte"
  | short => "Short"
  | int => "Integer"
  | long => "Long"
  | float => "Float"
  | double => "Double"

def ofWrapper? (name : String) : Option NumericType :=
  [byte, short, int, long, float, double].find? (fun t => t.wrapper = name)

/-- What a value of a declared type counts as in arithmetic: one of a primitive type as that type, one
of a wrapper class as what is in it, and a character as an `int`. -/
def ofDeclared? (type : String) : Option NumericType :=
  if type = "char" ∨ type = "Character" then some .int else (ofLabel? type).or (ofWrapper? type)

theorem ofDeclared?_label (t : NumericType) : ofDeclared? t.label = some t := by
  cases t <;> rfl

theorem isIntegral_widest (s t : NumericType) :
    (s.widest t).isIntegral = (s.isIntegral && t.isIntegral) := by
  cases s <;> cases t <;> rfl

theorem promoted_widest_double (t : NumericType) : (double.widest t).promoted = double := by
  cases t <;> rfl

theorem isIntegral_promoted (t : NumericType) : t.promoted.isIntegral = t.isIntegral := by
  cases t <;> rfl

end NumericType

/-- What is known in a class of its names and of the methods that are called there: as which numbers
they count. -/
structure NumericScope where
  ofName : String → Option NumericType
  ofMethod : Expr → Option NumericType

namespace Expr

mutual

/-- The primitive type that an expression counts as in arithmetic. -/
def numeric? (scope : NumericScope) : Expr → Option NumericType
  | number literal => Numeral.literalType? literal
  | name word => scope.ofName word
  | call function arguments =>
    (callType? function (numerics scope arguments)).bind ValueType.number?
  | method receiver member arguments => scope.ofMethod (method receiver member arguments)
  | negate operand => (operand.numeric? scope).map NumericType.promoted
  | cast type operand =>
    if type = "double" then (operand.numeric? scope).map fun _ => .double else none
  | binary operator left right =>
    if isArithmetic operator then
      (left.numeric? scope).bind fun s =>
        (right.numeric? scope).map fun t => (s.widest t).promoted
    else none
  | _ => none

def numerics (scope : NumericScope) : List Expr → List (Option NumericType)
  | [] => []
  | expr :: rest => expr.numeric? scope :: numerics scope rest

end

/-- An expression has the type `float` or `double`, boxed or not. -/
def IsFloating (scope : NumericScope) (expr : Expr) : Prop :=
  ∃ t, expr.numeric? scope = some t ∧ t.isIntegral = false

section

variable {scope : NumericScope} {x y : Expr}

theorem numeric?_cast_double :
    (cast "double" x).numeric? scope = (x.numeric? scope).map fun _ => .double := by
  rw [numeric?, if_pos rfl]

theorem numeric?_binary {operator : Operator} (h : isArithmetic operator = true) :
    (binary operator x y).numeric? scope =
      (x.numeric? scope).bind fun s => (y.numeric? scope).map fun t => (s.widest t).promoted := by
  rw [numeric?, if_pos h]

/-- A function that takes any number and gives a `double`. -/
theorem numeric?_call_one {function : String} (h : (function, 1) ∈ doubleFunctions) :
    (call function [x]).numeric? scope = (x.numeric? scope).map fun _ => .double := by
  rw [numeric?, numerics, numerics]
  cases hx : x.numeric? scope with
  | none =>
    rw [callType?_eq_none (by simp)]
    rfl
  | some t => simp [callType?, h, ValueType.number?]

theorem numeric?_abs :
    (call "Math.abs" [x]).numeric? scope = (x.numeric? scope).map NumericType.promoted := by
  rw [numeric?, numerics, numerics]
  cases x.numeric? scope with
  | none | some t => rfl

theorem numeric?_pow :
    (call "Math.pow" [x, y]).numeric? scope =
      (x.numeric? scope).bind fun _ => (y.numeric? scope).map fun _ => .double := by
  rw [numeric?, numerics, numerics, numerics]
  cases x.numeric? scope with
  | none => rw [callType?_eq_none (by simp)]; rfl
  | some s =>
    cases y.numeric? scope with
    | none => rw [callType?_eq_none (by simp)]; rfl
    | some t => rfl

theorem not_isFloating {t : NumericType} (h : x.numeric? scope = some t)
    (hintegral : t.isIntegral = true) : ¬ x.IsFloating scope := by
  rintro ⟨found, hfound, hfloating⟩
  obtain rfl := Option.some.inj (h.symm.trans hfound)
  rw [hintegral] at hfloating
  cases hfloating

/-- Converted to `double`, a number is a floating one. -/
theorem isFloating_cast_double :
    (cast "double" x).IsFloating scope ↔ (x.numeric? scope).isSome = true := by
  unfold IsFloating
  rw [numeric?_cast_double]
  cases x.numeric? scope with
  | none => simp
  | some t =>
    simp only [Option.map_some, Option.some.injEq, Option.isSome_some, iff_true]
    exact ⟨.double, rfl, rfl⟩

end

end Expr

end RobotBlocks
