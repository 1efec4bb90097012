import RobotBlocks.Dict
import RobotBlocks.NumericType

/-!
# Tables of static types

A class states a type for every variable and for the result of every procedure. A variable that gets
values of several types has the widest of them if they are numeric, and otherwise `Object`.
-/

set_option autoImplicit false

namespace RobotBlocks

namespace StaticType

/-- The type of everything. -/
def object : String := "Object"

/-- The type of a variable that gets values of two types. -/
def merge (a b : String) : String :=
  if a = b then a
  else
    match NumericType.ofLabel? a, NumericType.ofLabel? b with
    | some s, some t => (s.widest t).label
    | _, _ => object

/-- The wider of two numeric types that may be unknown. -/
def widest? : Option NumericType → Option NumericType → Option NumericType
  | some s, some t => some (s.widest t)
  | s, t => s.or t

end StaticType

/-- The types of the variables and of the results of the procedures, as far as they are known. -/
structure TypeTable where
  variableTypes : Dict String := {}
  resultTypes : Dict String := {}
  deriving DecidableEq

namespace TypeTable

def variableType (table : TypeTable) (name : String) : String :=
  (table.variableTypes.get? name).getD StaticType.object

def resultType (table : TypeTable) (name : String) : String :=
  (table.resultTypes.get? name).getD StaticType.object

/-- The table after a variable got a value whose type may be unknown. -/
def assign (table : TypeTable) (name : String) : Option String → TypeTable
  | none => table
  | some type =>
    let merged :=
      match table.variableTypes.get? name with
      | some known => StaticType.merge known type
      | none => type
    { table with variableTypes := table.variableTypes.insert name merged }

def declare (table : TypeTable) (name : String) : TypeTable :=
  { table with variableTypes := table.variableTypes.insertIfNew name StaticType.object }

/-- The table after a procedure was found to give values of a type. -/
def giveResult (table : TypeTable) (name type : String) : TypeTable :=
  { table with resultTypes := table.resultTypes.insert name type }

end TypeTable

end RobotBlocks
