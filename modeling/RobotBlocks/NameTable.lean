import RobotBlocks.Dict
import RobotBlocks.Identifier

/-!
# The table of handed-out identifiers

A run of the generator turns the names of variables, procedures and devices into identifiers and
needs helper names of its own. The table remembers what was handed out: a name keeps its identifier,
and no identifier is handed out twice or is reserved.

A busy identifier gets a number behind it, the first one from two on that makes it free. The search
for that number is bounded by the number of busy identifiers: more candidates than that cannot all be
busy.
-/

set_option autoImplicit false

namespace RobotBlocks

inductive Namespace where
  | variableNames
  | procedureNames
  /-- The devices of a class, given by its simple name. -/
  | deviceNames (className : String)
  deriving DecidableEq, Repr

structure NameTable where
  /-- The identifier of each name, the newest first. -/
  assigned : List ((Namespace × String) × String) := []
  /-- All identifiers that were handed out, the newest first. -/
  taken : List String := []
  /-- The last number that was tried for each helper name. -/
  counters : Dict Nat := {}

namespace NameTable

/-- A base with a number behind it; the first candidate is the base itself. -/
def numbered (base : String) (number : Nat) : String :=
  if number = 1 then base else base ++ toString number

/-- The first number from `number` on whose candidate is free, among the next `steps`. -/
def firstFree (busy : String → Bool) (base : String) : (steps number : Nat) → Nat
  | 0, number => number
  | steps + 1, number =>
    if busy (numbered base number) then firstFree busy base steps (number + 1) else number

def busy (table : NameTable) (identifier : String) : Bool :=
  Identifier.isReserved identifier || table.taken.contains identifier

/-- A bound on the number of busy identifiers. -/
def bound (table : NameTable) : Nat :=
  table.taken.length + Identifier.reservedWords.length + (knownPackages.flatMap Prod.snd).length

/-- The first number from `number` on that makes a base free. -/
def freeNumber (table : NameTable) (base : String) (number : Nat) : Nat :=
  firstFree table.busy base table.bound number

def assigned? (table : NameTable) (space : Namespace) (name : String) : Option String :=
  (table.assigned.find? (fun entry => entry.1 = (space, name))).map Prod.snd

/-- What the identifier of a name starts with: the characters of the name that an identifier may
have, or an underscore if there are none. A busy device name gets the class of the device as well. -/
def baseFor (table : NameTable) (space : Namespace) (name : String) : String :=
  let kept := Identifier.ofName name
  let base := if kept.isEmpty then "_" else kept
  match space with
  | .deviceNames className => if table.busy base then base ++ "As" ++ className else base
  | _ => base

/-- The identifier of a name, handed out now if the name has none yet. -/
def identifierFor (table : NameTable) (space : Namespace) (name : String) : String × NameTable :=
  match table.assigned? space name with
  | some identifier => (identifier, table)
  | none =>
    let base := table.baseFor space name
    let identifier := numbered base (table.freeNumber base 1)
    (identifier,
      { table with
        assigned := ((space, name), identifier) :: table.assigned
        taken := identifier :: table.taken })

/-- A helper name that was never handed out: the base, or the base with a number larger than all that
were tried for it. -/
def distinctName (table : NameTable) (base : String) : String × NameTable :=
  let number := table.freeNumber base ((table.counters.get? base).getD 0 + 1)
  let identifier := numbered base number
  (identifier,
    { table with
      taken := identifier :: table.taken
      counters := table.counters.insert base number })

end NameTable

end RobotBlocks
