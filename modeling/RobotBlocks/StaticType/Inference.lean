import RobotBlocks.StaticType.Basic

/-!
# Inference of static types

Inference goes through the enabled blocks in the order of their identities. Every assignment and every
argument of a call adds the type of its value to that of the variable or parameter, as far as it is
known by then; variables that get no value are of type `Object`. After that the results of the
procedures get their types.

A fault ends inference; what was found before it stays.
-/

set_option autoImplicit false

namespace RobotBlocks

/-- A step of inference: it may fail, and leaves a table in any case. -/
abbrev Inference := ExceptT Fault (StateM TypeTable)

namespace Inference

def childType (w : Workspace) (block : Block) (socket : String) : Inference (Option String) := do
  liftM (StaticType.ofChild w (← get) block socket)

/-- Adds the types of the arguments of a call, from a position on. -/
def addArguments (w : Workspace) (call : Block) : (index : Nat) → List String → Inference Unit
  | _, [] => pure ()
  | index, parameter :: rest => do
    let type ← childType w call ("ARG" ++ toString index)
    modify (fun table => table.assign parameter type)
    addArguments w call (index + 1) rest

def addValues (w : Workspace) (block : Block) : Inference Unit :=
  match block.kind with
  | .variablesSet => do
    let name ← block.requiredField "VAR"
    let type ← childType w block "VALUE"
    modify (fun table => table.assign name type)
  | .procedureCall _ => do
    let name ← block.procedureName
    addArguments w block 0 ((w.parameters? name).getD [])
  | _ => pure ()

def addResult (w : Workspace) (block : Block) : Inference Unit :=
  match block.kind with
  | .procedureDef true => do
    let name ← block.procedureName
    let type ← childType w block "RETURN"
    modify (fun table => table.giveResult name (type.getD StaticType.object))
  | _ => pure ()

def inferAll (w : Workspace) : Inference Unit := do
  let enabled := w.byId.filter (fun block => !block.disabled)
  enabled.forM (addValues w)
  modify (fun table => w.variableNames.foldl TypeTable.declare table)
  enabled.forM (addResult w)

end Inference

end RobotBlocks
