import RobotBlocks.Binary64.Reading
import RobotBlocks.Event
import RobotBlocks.Program.Registration
import RobotBlocks.Program.Sketch
import RobotBlocks.Text.Basic
import RobotBlocks.Workspace.Forest
import RobotBlocks.Xml.Document

/-!
# Loading programs

A saved program is a document of blocks, up to the first closing tag of its root, and an optional
document with the registration after it. Loading enters the blocks into a workspace: a block comes
before those below it, the values before the statements, and these before what comes next. A block
without an identity gets the next generated one.

Loading keeps its state when it meets a fault, so that the events up to there are known.
-/

set_option autoImplicit false

namespace RobotBlocks

open RobotBlocks.Xml (Element)

structure Program where
  workspace : Workspace
  registration : Registration := {}

structure Loading where
  workspace : Workspace := .empty
  /-- How many identities were generated. -/
  generated : Nat := 0
  events : List Event := []

/-- A step of loading: it may fail, and leaves a state in any case. -/
abbrev Loader := ExceptT Fault (StateM Loading)

namespace Loader

def record (event : Event) : Loader Unit :=
  modify fun state => { state with events := event :: state.events }

/-- Does to the workspace what may fail and changes it in any case. -/
def connect (operation : Workspace → Except Fault Unit × Workspace) : Loader Unit := do
  let (result, workspace) := operation (← get).workspace
  modify fun state => { state with workspace }
  liftM result

/-- The identity that a block states, or else a generated one. -/
def identity (attributes : Dict String) : Loader String :=
  match (attributes.get? "id").filter (fun id => !id.isEmpty) with
  | some id => pure id
  | none => do
    let number := (← get).generated + 1
    modify fun state => { state with generated := number }
    return "gen-" ++ toString number

def kindOf (id : String) (attributes : Dict String) : Except Fault (String × BlockKind) :=
  match attributes.get? "type" with
  | none => .error (.noType id)
  | some typeName =>
    match BlockKind.ofTypeName? typeName with
    | none => .error (.unknownType typeName id)
    | some kind => .ok (typeName, kind)

/-- A coordinate, without its fraction; what is no number counts as zero. -/
def coordinate (attributes : Dict String) (name : String) : Int :=
  (((attributes.get? name).bind (fun raw => Binary64.read (Text.trim raw))).map
    Binary64.toInteger).getD 0

/-- The mutation of a block. Blocks that call a method need one, and blocks of a fixed shape pay no
attention to theirs. -/
def mutationOf (id typeName : String) (kind : BlockKind) (source : BlockSource) :
    Loader (Option Mutation) :=
  match source.mutation with
  | some element =>
    if kind.takesMutation then
      match Mutation.decode kind element source.fields with
      | .ok mutation => pure (some mutation)
      | .error cause => throw (.badMutation id typeName cause)
    else do
      record (.mutationIgnored id)
      return none
  | none => if kind.isCall then throw (.noMutation id typeName) else pure none

def blockOf (source : BlockSource) : Loader Block := do
  let id ← identity source.attributes
  let (typeName, kind) ← kindOf id source.attributes
  source.ignored.forM (fun element => record (.elementIgnored id element))
  let mutation ← mutationOf id typeName kind source
  let block : Block :=
    { id, typeName, kind, mutation
      fields := source.fields
      comment := source.comment
      disabled := source.attributes.get? "disabled" = some "true"
      x := coordinate source.attributes "x"
      y := coordinate source.attributes "y" }
  return block.applyMutation

def declareVariableOf (block : Block) : Loader Unit :=
  match block.kind with
  | .variablesGet | .variablesSet => do
    let name ← block.requiredField "VAR"
    modify fun state => { state with workspace := state.workspace.declareVariable name }
  | _ => pure ()

def enter (source : BlockSource) : Loader Block := do
  let block ← blockOf source
  declareVariableOf block
  let workspace ← (← get).workspace.insert block
  modify fun state => { state with workspace }
  return block

mutual

/-- Enters the blocks of a sketch and links them. The result is the identity of the first one. -/
def load : Sketch → Loader String
  | .mk source values statements next => do
    let block ← enter source
    loadValues block values
    loadStatements block.id statements
    loadNext block.id next
    return block.id

def loadValues (parent : Block) : List (String × Sketch) → Loader Unit
  | [] => pure ()
  | (socket, sketch) :: rest => do
    let child ← load sketch
    if (parent.shape.socket? socket).isNone then record (.undeclaredSocket parent.id socket)
    connect (fun w => w.connectValue parent.id socket child)
    loadValues parent rest

def loadStatements (parent : String) : List (String × Sketch) → Loader Unit
  | [] => pure ()
  | (slot, sketch) :: rest => do
    let child ← load sketch
    connect (fun w => w.connectStatement parent slot child)
    loadStatements parent rest

def loadNext (previous : String) : Option Sketch → Loader Unit
  | none => pure ()
  | some sketch => do
    let child ← load sketch
    connect (fun w => w.connectNext previous child)

end

def declaredName? (element : Element) : Option String :=
  if element.name = "variable" && !element.text.isEmpty then some element.text else none

def loadElement (element : Element) : Loader Unit :=
  if element.name = "block" || element.name = "shadow" then do
    let _ ← load (Sketch.ofElement element)
  else if element.name = "variables" then
    modify fun state =>
      { state with
        workspace :=
          (element.children.filterMap declaredName?).foldl Workspace.declareVariable state.workspace }
  else record (.workspaceElementIgnored element.name)

/-- Loads all elements of a workspace and checks the links between the blocks. -/
def loadWorkspace (root : Element) : Loader Workspace := do
  root.children.forM loadElement
  let workspace := (← get).workspace
  liftM workspace.validate
  record (.loaded workspace.size)
  return workspace

end Loader

namespace Program

def closingTag : List Char := "</xml>".toList

/-- A text up to and with its first closing tag, and what follows it. -/
def splitAtClosing : List Char → Option (List Char × List Char)
  | [] => none
  | c :: rest =>
    match Text.after? closingTag (c :: rest) with
    | some after => some (closingTag, after)
    | none => (splitAtClosing rest).map (fun (front, after) => (c :: front, after))

/-- The document of the blocks and, if there is one, that of the registration. -/
def documents (source : String) : String × Option String :=
  match splitAtClosing source.toList with
  | none => (source, none)
  | some (blocks, rest) =>
    let rest := Text.trimChars rest
    (String.ofList blocks, if rest.isEmpty then none else some (String.ofList rest))

def readRegistration (document : String) : Except Fault Registration :=
  match Xml.read? document with
  | none => .error .malformedRegistration
  | some root => Registration.ofElement root

def ofRoot (root : Element) (registration : Option String) : Loader Program := do
  if root.name ≠ "xml" then throw (.wrongRoot root.name)
  let registration ←
    match registration with
    | some document => liftM (readRegistration document)
    | none => pure {}
  let workspace ← Loader.loadWorkspace root
  return { workspace, registration }

def load (source : String) : Loader Program :=
  let (blocks, registration) := documents source
  match Xml.read? blocks with
  | none => throw .malformedBlocks
  | some root => ofRoot root registration

/-- Reads a program; the events are those up to its end or its fault. -/
def read (source : String) : Except Fault Program × List Event :=
  let (result, state) := (load source).run.run {}
  (result, state.events.reverse)

end Program

end RobotBlocks
