import RobotBlocks.Check
import RobotBlocks.ClassType.Known
import RobotBlocks.NumericType

/-!
# Class types

Method signatures name their types in the compiled target's binary form: `int`,
`java.lang.String`, `com.example.Outer$Inner` for an inner class, and descriptors such as `[I` or
`[[Lcom.example.Thing;` for arrays. From such a name follow

* its label, the type as it is written in source (`ClassType.label`);
* the check of a socket or an output of that type (`ClassType.check`);
* the class that has to be imported to use the label (`ClassType.importTarget`).

An array descriptor is read from the left. The reader is defined on the part after the first bracket,
so that it is total, and `arrayLabel?` says for which texts there is such a part.
-/

set_option autoImplicit false

namespace RobotBlocks.ClassType

/-- The name of the primitive type with a descriptor code. -/
def primitiveName? : Char → Option String
  | 'Z' => some "boolean"
  | 'B' => some "byte"
  | 'C' => some "char"
  | 'D' => some "double"
  | 'F' => some "float"
  | 'I' => some "int"
  | 'J' => some "long"
  | 'S' => some "short"
  | _ => none

def withoutPackage (name : List Char) : List Char :=
  (name.reverse.takeWhile (· ≠ '.')).reverse

/-- A class name with dots before its inner classes. -/
def dotInner (name : List Char) : List Char := name.map (fun c => if c = '$' then '.' else c)

def dropSemicolon (name : List Char) : List Char :=
  if name.getLast? = some ';' then name.dropLast else name

theorem length_dropSemicolon_le (name : List Char) :
    (dropSemicolon name).length ≤ name.length := by
  unfold dropSemicolon
  split
  · simp
  · exact Nat.le_refl _

mutual

/-- The label of the elements of an array, from its descriptor after the first bracket. -/
def elementLabel (keepPackage : Bool) : List Char → List Char
  | '[' :: rest => elementLabel keepPackage rest ++ ['[', ']']
  | 'L' :: name => labelChars keepPackage (dropSemicolon name)
  | code :: _ => ((primitiveName? code).getD "Object").toList
  | [] => "Object".toList
termination_by cs => cs.length
decreasing_by
  · simp
  · have := length_dropSemicolon_le name
    simp
    omega

def labelChars (keepPackage : Bool) : List Char → List Char
  | '[' :: rest => elementLabel keepPackage rest ++ ['[', ']']
  | name => dotInner (if keepPackage then name else withoutPackage name)
termination_by cs => cs.length

end

def qualifiedLabel (classType : String) : String := String.ofList (labelChars true classType.toList)

/-- The label of a class type: no package, dots before inner classes, brackets behind array
elements. -/
def label (classType : String) : String := String.ofList (labelChars false classType.toList)

/-- The label of an array whose descriptor is the text after its first character; that character has
to be an ASCII one. -/
def arrayLabel? (descriptor : String) : Option String :=
  match descriptor.toList with
  | [] => none
  | first :: rest =>
    if first.toNat < 128 then some (String.ofList (elementLabel false rest ++ ['[', ']']))
    else none

/-- Where a class type stands in a signature. -/
inductive Position where
  | input
  | output
  deriving DecidableEq, Repr

/-- The label of the check for values that the run-time environment supplies. -/
def providedAutomatically : String := "ProvidedAutomatically"

/-- The classes whose values the run-time environment supplies. -/
def ambientClasses : List String :=
  ["com.qualcomm.robotcore.eventloop.opmode.LinearOpMode",
   "com.qualcomm.robotcore.eventloop.opmode.OpMode",
   "com.qualcomm.robotcore.hardware.HardwareMap",
   "org.firstinspires.ftc.robotcore.external.Telemetry"]

def booleanTypes : List String := ["boolean", "java.lang.Boolean"]

def textTypes : List String := ["char", "java.lang.Character", "java.lang.String"]

/-- The primitive numeric types and the classes that wrap one. -/
def wrappedNumberTypes : List String :=
  ["byte", "java.lang.Byte", "short", "java.lang.Short", "int", "java.lang.Integer",
   "long", "java.lang.Long", "float", "java.lang.Float", "double", "java.lang.Double"]

def numberTypes : List String := wrappedNumberTypes ++ ["java.lang.Number"]

/-- The check of the parameters that take a matrix. -/
def matrixCheck : Check := .anyOf ["MatrixF", "OpenGLMatrix"]

def check (classType : String) (position : Position) : Check :=
  if classType.toList.head? = some '[' then .one classType
  else if classType = "java.lang.Object" then .any
  else if ambientClasses.contains classType then .one providedAutomatically
  else if booleanTypes.contains classType then .boolean
  else if textTypes.contains classType then .text
  else if numberTypes.contains classType then .number
  else
    let simple := label classType
    if (knownClass? simple).isSome then
      if simple = "MatrixF" ∧ position = .input then matrixCheck else .one simple
    else .one classType

/-- Whether a check asks for one of the two matrix classes. -/
def isMatrixChoice : Check → Bool
  | .anyOf labels => labels.length = 2 && labels.contains "MatrixF" && labels.contains "OpenGLMatrix"
  | _ => false

/-- The type that the compiled target declares for a class type with the given check. -/
def declaredType (classType : String) (check : Check) (position : Position) : String :=
  if check.isNumber && (NumericType.ofLabel? classType).isSome then classType
  else if position = .input ∧ isMatrixChoice check then "MatrixF"
  else label classType

/-- What follows from a class type at its position. -/
structure Resolved where
  check : Check
  /-- The type that the compiled target declares or converts to. -/
  label : String
  deriving DecidableEq, Repr

def resolve (classType : String) (position : Position) : Resolved :=
  let check := check classType position
  { check, label := declaredType classType check position }

/-- The class name between the brackets, the `L` and the final semicolon of an array descriptor; the
name is not empty and holds no semicolon. -/
def elementClass? (descriptor : List Char) : Option (List Char) :=
  match descriptor.dropWhile (· = '[') with
  | 'L' :: name =>
    if descriptor.head? = some '[' ∧ name.getLast? = some ';' ∧ name.dropLast ≠ [] ∧
        ';' ∉ name.dropLast then
      some name.dropLast
    else none
  | _ => none

theorem length_lt_of_elementClass? {descriptor name : List Char}
    (h : elementClass? descriptor = some name) : name.length < descriptor.length := by
  unfold elementClass? at h
  split at h
  · rename_i rest heq
    split at h
    · cases h
      have hdrop := (List.dropWhile_sublist (fun c => decide (c = '[')) (l := descriptor)).length_le
      rw [heq] at hdrop
      simp only [List.length_cons, List.length_dropLast] at hdrop ⊢
      omega
    · cases h
  · cases h

/-- The class that has to be imported to use a class type: the outermost class of the name, or of an
array's elements. A name without a dot needs none. -/
def importTargetChars (classType : List Char) : Option (List Char) :=
  if '.' ∉ classType then none
  else if classType.head? = some '[' then
    match h : elementClass? classType with
    | some name =>
      have : name.length < classType.length := length_lt_of_elementClass? h
      importTargetChars name
    | none => none
  else some (classType.takeWhile (· ≠ '$'))
termination_by classType.length

def importTarget (classType : String) : Option String :=
  (importTargetChars classType.toList).map String.ofList

end RobotBlocks.ClassType
