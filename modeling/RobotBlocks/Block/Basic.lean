import RobotBlocks.Block.Mutation

/-!
# Blocks

A block has a kind, fields, links to the blocks that hang below it and to the one it hangs from, and
a shape. The shape is the static one of the kind, extended by the mutation; `applyMutation` builds it
anew, so it does not matter how often that is done.
-/

set_option autoImplicit false

namespace RobotBlocks

inductive Link where
  | value (parent socket : String)
  /-- First in a statement slot. -/
  | statement (parent slot : String)
  /-- After another statement. -/
  | next (previous : String)
  deriving DecidableEq, Repr

def Link.parent : Link → String
  | value parent _ => parent
  | statement parent _ => parent
  | next previous => previous

structure Block where
  id : String
  /-- The name of its kind in the saved program. -/
  typeName : String
  kind : BlockKind
  fields : Dict String := {}
  /-- The blocks in its value sockets, by socket. -/
  values : Dict String := {}
  /-- The first blocks in its statement slots, by slot. -/
  statements : Dict String := {}
  next : Option String := none
  parent : Option Link := none
  mutation : Option Mutation := none
  shape : Shape := Shape.ofKind kind
  comment : Option String := none
  disabled : Bool := false
  x : Int := 0
  y : Int := 0

namespace Block

def field? (block : Block) (name : String) : Option String := block.fields.get? name

/-- The value of a field that blocks of this kind always have. -/
def requiredField (block : Block) (name : String) : Except Fault String :=
  match block.field? name with
  | some value => .ok value
  | none => .error (.missingField block.id block.typeName name)

theorem requiredField_eq_ok {block : Block} {name value : String}
    (h : block.field? name = some value) : block.requiredField name = .ok value := by
  unfold requiredField
  rw [h]

theorem field?_of_requiredField {block : Block} {name value : String}
    (h : block.requiredField name = .ok value) : block.field? name = some value := by
  unfold requiredField at h
  split at h
  · cases h
    assumption
  · cases h

/-- The fault of a field whose value is none of its choices. -/
def unexpected (block : Block) (field value : String) : Fault :=
  .unexpectedChoice block.id block.typeName field value

/-- The block with the shape that its kind and its mutation give it. -/
def applyMutation (block : Block) : Block :=
  let shape := Shape.ofKind block.kind
  { block with
    shape :=
      match block.mutation with
      | some mutation => mutation.extend shape
      | none => shape }

def procedureName (block : Block) : Except Fault String :=
  match block.mutation with
  | some (.procedure name _) => if name.isEmpty then block.requiredField "NAME" else .ok name
  | _ => block.requiredField "NAME"

def procedureArguments (block : Block) : List String :=
  match block.mutation with
  | some (.procedure _ arguments) => arguments
  | _ => []

def signature? (block : Block) : Option CallSignature :=
  match block.mutation with
  | some (.call signature) => some signature
  | _ => none

def signature (block : Block) : Except Fault CallSignature :=
  match block.signature? with
  | some signature => .ok signature
  | none => .error (.noSignature block.id block.typeName)

def itemCount (block : Block) : Nat :=
  match block.mutation with
  | some (.items count) => count
  | _ => 0

end Block

end RobotBlocks
