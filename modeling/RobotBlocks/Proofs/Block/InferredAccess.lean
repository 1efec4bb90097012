import RobotBlocks.Proofs.Block.Signatures

/-!
# Inferred access

A call that does not state how its method is called gets an access method, and a conversion, from the
type of the result; the output of the block gets its check from the same type. The two are read from
tables of their own. Both know the scalars, truth values, texts and numbers, and both are compared here
with `Scalar.ofClass?`.

They do not agree everywhere. A class type in no table is its own check, so a type called `Number` has
the check of a number and the access of an object (`check_eq_iff`). And `java.lang.Number` is a number
to the check and an object to the access (`inferredAccess_eq_iff`). Everywhere else they agree.
-/

set_option autoImplicit false

namespace RobotBlocks

open ClassType (check label)

/-- The values that are more than objects to a call. -/
inductive Scalar where
  | truth
  | text
  | number
  deriving DecidableEq

namespace Scalar

def label : Scalar → String
  | truth => "Boolean"
  | text => "String"
  | number => "Number"

/-- How a method with such a result is called, and what becomes of the result. -/
def access : Scalar → String × String
  | truth => ("callJava_boolean", "")
  | text => ("callJava_String", "")
  | number => ("callJava_String", "Number")

def classes : List String :=
  ClassType.booleanTypes ++ ClassType.textTypes ++ ClassType.numberTypes

def ofClass? (classType : String) : Option Scalar :=
  if ClassType.booleanTypes.contains classType then some truth
  else if ClassType.textTypes.contains classType then some text
  else if ClassType.numberTypes.contains classType then some number
  else none

theorem label_injective : Function.Injective label := by
  intro a b h
  cases a <;> cases b <;> simp [label] at h ⊢

theorem access_injective : Function.Injective access := by
  intro a b h
  cases a <;> cases b <;> simp [access] at h ⊢

theorem access_ne_object (scalar : Scalar) : ("callJava", "") ≠ scalar.access := by
  cases scalar <;> simp [access]

theorem ofClass?_label (scalar : Scalar) : ofClass? scalar.label = none := by
  cases scalar <;> rfl

theorem mem_classes_of_ofClass? {classType : String} {scalar : Scalar}
    (h : ofClass? classType = some scalar) : classType ∈ classes := by
  unfold ofClass? at h
  simp only [List.contains_iff_mem] at h
  simp only [classes, List.mem_append]
  grind

end Scalar

open Scalar (ofClass?)

/-! ## Checks -/

section

variable {classType : String} {scalar : Scalar} {position : ClassType.Position}

theorem check_of_ofClass? (h : ofClass? classType = some scalar) :
    check classType position = .one scalar.label := by
  have hplain : ∀ name ∈ Scalar.classes, name.toList.head? ≠ some '[' ∧ name ≠ "java.lang.Object" ∧
      ClassType.ambientClasses.contains name = false := by
    decide
  obtain ⟨harray, hobject, hambient⟩ := hplain classType (Scalar.mem_classes_of_ofClass? h)
  unfold ofClass? at h
  unfold check
  simp only [harray, hobject, hambient, if_false, Bool.false_eq_true]
  grind [Scalar.label, Check.boolean, Check.text, Check.number]

/-- The labels of scalars are class types of no table. -/
theorem check_label (scalar : Scalar) : check scalar.label position = .one scalar.label := by
  have hlabel : label scalar.label = scalar.label := by
    cases scalar <;>
      simp [label, ClassType.labelChars, ClassType.dotInner, ClassType.withoutPackage,
        Scalar.label]
  unfold check
  rw [hlabel]
  cases scalar <;> rfl

/-- What the check of a class type outside the tables can be. -/
theorem check_cases_of_ofClass?_eq_none (h : ofClass? classType = none) :
    check classType position = .one classType ∨
      check classType position = .any ∨
      check classType position = .one ClassType.providedAutomatically ∨
      check classType position = ClassType.matrixCheck ∨
      ((knownClass? (label classType)).isSome ∧
        check classType position = .one (label classType)) := by
  unfold ofClass? at h
  unfold check
  grind

theorem eq_label_of_check (h : ofClass? classType = none)
    (hcheck : check classType position = .one scalar.label) : classType = scalar.label := by
  rcases @check_cases_of_ofClass?_eq_none classType position h with
    hown | hany | hprovided | hmatrix | ⟨hknown, hlabel⟩
  · exact Check.one.inj (hown.symm.trans hcheck)
  · simp [hany] at hcheck
  · have hsame : ClassType.providedAutomatically = scalar.label :=
      Check.one.inj (hprovided.symm.trans hcheck)
    cases scalar <;> simp [ClassType.providedAutomatically, Scalar.label] at hsame
  · simp [hmatrix, ClassType.matrixCheck] at hcheck
  · -- no known class is called as a scalar is
    have hsame : label classType = scalar.label :=
      Check.one.inj (hlabel.symm.trans hcheck)
    rw [hsame] at hknown
    have hunknown : (knownClass? scalar.label).isSome = false := by
      cases scalar <;> rfl
    simp [hunknown] at hknown

theorem check_eq_iff :
    check classType position = .one scalar.label ↔
      ofClass? classType = some scalar ∨ classType = scalar.label := by
  constructor
  · intro hcheck
    cases h : ofClass? classType with
    | none => exact .inr (eq_label_of_check h hcheck)
    | some found =>
      have hlabel : found.label = scalar.label :=
        Check.one.inj ((check_of_ofClass? h).symm.trans hcheck)
      exact .inl (congrArg some (Scalar.label_injective hlabel))
  · rintro (h | rfl)
    · exact check_of_ofClass? h
    · exact check_label scalar

/-! ## Access -/

/-- All scalars have their access, but for the class of all numbers. -/
theorem inferredAccess_eq (returnType : String) :
    CallSignature.inferredAccess returnType =
      if returnType = "java.lang.Number" then ("callJava", "")
      else ((ofClass? returnType).map Scalar.access).getD ("callJava", "") := by
  by_cases hnumber : returnType = "java.lang.Number"
  · subst hnumber
    rfl
  · have hwrapped : ClassType.numberTypes.contains returnType =
        ClassType.wrappedNumberTypes.contains returnType := by
      simp [ClassType.numberTypes, hnumber]
    unfold CallSignature.inferredAccess ofClass?
    rw [if_neg hnumber, hwrapped]
    repeat' split
    all_goals rfl

variable {returnType : String}

theorem inferredAccess_eq_iff :
    CallSignature.inferredAccess returnType = scalar.access ↔
      ofClass? returnType = some scalar ∧ returnType ≠ "java.lang.Number" := by
  rw [inferredAccess_eq]
  by_cases hnumber : returnType = "java.lang.Number"
  · simp [hnumber, scalar.access_ne_object]
  · rw [if_neg hnumber]
    cases ofClass? returnType with
    | none => simp [scalar.access_ne_object]
    | some found => simp [hnumber, Scalar.access_injective.eq_iff]

/-- The access is that of a scalar exactly if the check is, but for the types with the label of the check
as their name and for the class of all numbers. -/
theorem inferredAccess_eq_iff_check :
    CallSignature.inferredAccess returnType = scalar.access ↔
      check returnType .output = .one scalar.label ∧ returnType ≠ scalar.label ∧
        returnType ≠ "java.lang.Number" := by
  rw [inferredAccess_eq_iff, check_eq_iff, ← and_assoc]
  refine and_congr_left fun _ => ⟨fun h => ⟨.inl h, ?_⟩, ?_⟩
  · rintro rfl
    rw [scalar.ofClass?_label] at h
    cases h
  · rintro ⟨h | rfl, hne⟩
    · exact h
    · exact absurd rfl hne

end

namespace CallSignature

/-- An inferred access tells its scalar by the end of the method's name and by the conversion. -/
theorem inferredAccess_forms (returnType : String) :
    ((inferredAccess returnType).2 = "Number" ↔
      inferredAccess returnType = Scalar.number.access) ∧
    ("_boolean".toList <:+ (inferredAccess returnType).1.toList ↔
      inferredAccess returnType = Scalar.truth.access) ∧
    ("_String".toList <:+ (inferredAccess returnType).1.toList ∧ (inferredAccess returnType).2 = "" ↔
      inferredAccess returnType = Scalar.text.access) := by
  unfold inferredAccess
  split_ifs <;> decide

/-- The signature of a call that states no access method. The result is converted to a number exactly if
the output has the check of numbers, but for two types; it is read as a truth value or as a text exactly
if the output has that check, but for one type each. -/
theorem inferred_access_follows_check {attributes fields : Dict String} {returnType : String}
    (hsmall : Holdable attributes) (hmet : ∀ demand ∈ demands attributes, demand.Met attributes)
    (hreturn : attributes.get? "returnType" = some returnType)
    (hnone : ∀ access, attributes.get? "accessMethod" = some access → access = "") :
    ∃ signature, decode attributes fields = .ok signature ∧
      (signature.conversion = "Number" ↔
        check returnType .output = .one "Number" ∧ returnType ≠ "Number" ∧
          returnType ≠ "java.lang.Number") ∧
      ("_boolean".toList <:+ signature.accessMethod.toList ↔
        check returnType .output = .one "Boolean" ∧ returnType ≠ "Boolean") ∧
      ("_String".toList <:+ signature.accessMethod.toList ∧ signature.conversion = "" ↔
        check returnType .output = .one "String" ∧ returnType ≠ "String") := by
  obtain ⟨signature, hdecode⟩ := (@exists_decode_eq_ok_iff attributes fields hsmall).2 hmet
  have hdescribes := (decode_eq_ok_iff hsmall).1 hdecode
  obtain rfl := Option.some.inj (hreturn.symm.trans hdescribes.returnType)
  have haccess := hdescribes.inferred hnone
  obtain ⟨hnumber, htruth, htext⟩ := inferredAccess_forms signature.returnType
  rw [← haccess] at hnumber htruth htext
  -- the class of all numbers has neither of the other two checks
  have hother : ∀ scalar, scalar ≠ Scalar.number →
      check signature.returnType .output = .one scalar.label →
      signature.returnType ≠ "java.lang.Number" := by
    intro scalar hne hcheck heq
    rw [heq, @check_of_ofClass? _ .number _ rfl] at hcheck
    exact hne (Scalar.label_injective (Check.one.inj hcheck)).symm
  refine ⟨signature, hdecode, ?_, ?_, ?_⟩
  · rw [hnumber, haccess, inferredAccess_eq_iff_check]
    rfl
  · rw [htruth, haccess, inferredAccess_eq_iff_check]
    exact ⟨fun h => ⟨h.1, h.2.1⟩, fun h => ⟨h.1, h.2, hother .truth (by simp) h.1⟩⟩
  · rw [htext, haccess, inferredAccess_eq_iff_check]
    exact ⟨fun h => ⟨h.1, h.2.1⟩, fun h => ⟨h.1, h.2, hother .text (by simp) h.1⟩⟩

namespace CounterSample

def attributes (returnType : String) : Dict String :=
  Dict.ofList [("methodLookupString", "count"), ("returnType", returnType), ("parameterCount", "0")]

def fields : Dict String := Dict.ofList [("CLASS_NAME", "Counter")]

theorem holdable_attributes : Holdable (attributes "java.lang.Integer") := by
  intro count h
  have hcount : count? (attributes "java.lang.Integer") = some 0 := by rfl
  obtain rfl := Option.some.inj (hcount.symm.trans h)
  exact Nat.zero_le _

theorem met_attributes : ∀ demand ∈ demands (attributes "java.lang.Integer"),
    demand.Met (attributes "java.lang.Integer") := by
  apply (@exists_decode_eq_ok_iff _ fields holdable_attributes).1
  exact ⟨_, rfl⟩

/-- A wrapped number is converted. -/
theorem integer_is_converted :
    Holdable (attributes "java.lang.Integer") ∧
      ∃ signature, decode (attributes "java.lang.Integer") fields = .ok signature ∧
        check "java.lang.Integer" .output = .one "Number" ∧
        signature.conversion = "Number" := by
  have hcheck : check "java.lang.Integer" .output = .one "Number" :=
    @check_of_ofClass? _ .number _ rfl
  have hnone : (attributes "java.lang.Integer").get? "accessMethod" = none := by rfl
  obtain ⟨signature, hdecode, hnumber, -⟩ :=
    @inferred_access_follows_check (attributes "java.lang.Integer") fields "java.lang.Integer"
      holdable_attributes met_attributes rfl (by simp [hnone])
  exact ⟨holdable_attributes, signature, hdecode, hcheck, hnumber.2 ⟨hcheck, by decide, by decide⟩⟩

/-- The class of all numbers has the check of a number and is not converted. -/
theorem number_is_not_converted :
    ∃ signature, decode (attributes "java.lang.Number") fields = .ok signature ∧
      check "java.lang.Number" .output = .one "Number" ∧
      signature.accessMethod = "callJava" ∧ signature.conversion = "" :=
  ⟨_, rfl, @check_of_ofClass? _ .number _ rfl, rfl, rfl⟩

end CounterSample

end CallSignature

end RobotBlocks
