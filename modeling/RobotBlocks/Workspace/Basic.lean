import RobotBlocks.Block.Basic

/-!
# Workspaces

A workspace holds the blocks of a program, each under its own identity, and the names of the
program's variables. Blocks refer to one another by identity. A connection is entered twice: at the
block that hangs, as its parent link, and at the block it hangs from.

Connecting first makes the child hang, then looks for the parent. If the second step fails, the first
one stays: the results of the operations that can fail therefore come with the workspace they leave.
-/

set_option autoImplicit false

namespace RobotBlocks

structure Workspace where
  /-- The blocks, in the order in which they came. -/
  blocks : List Block := []
  /-- The names of the variables, in the order in which they were met. -/
  variableNames : List String := []
  /-- No two blocks have one identity. -/
  distinct : (blocks.map Block.id).Nodup := by simp

namespace Workspace

def empty : Workspace := {}

@[simp] theorem blocks_empty : empty.blocks = [] := rfl

instance : Inhabited Workspace := ⟨empty⟩

def size (w : Workspace) : Nat := w.blocks.length

def get? (w : Workspace) (id : String) : Option Block :=
  w.blocks.find? (fun block => block.id = id)

def block (w : Workspace) (id : String) : Except Fault Block :=
  match w.get? id with
  | some block => .ok block
  | none => .error (.unknownBlock id)

/-- No block has an identity that look-up does not find. -/
theorem not_mem_ids_of_get?_eq_none {w : Workspace} {id : String} (h : w.get? id = none) :
    id ∉ w.blocks.map Block.id := by
  intro hmem
  obtain ⟨block, hblock, rfl⟩ := List.mem_map.1 hmem
  simpa using List.find?_eq_none.1 h block hblock

def insert (w : Workspace) (block : Block) : Except Fault Workspace :=
  match h : w.get? block.id with
  | some _ => .error (.duplicateBlock block.id)
  | none => .ok
    { blocks := w.blocks ++ [block]
      variableNames := w.variableNames
      distinct := by
        rw [List.map_append, List.nodup_append]
        refine ⟨w.distinct, by simp, ?_⟩
        intro a ha b hb hab
        have hb' : b = block.id := by simpa using hb
        exact not_mem_ids_of_get?_eq_none h (hb' ▸ hab ▸ ha) }

/-- Changes the block with an identity; the change may not touch the identity itself. -/
def modify (w : Workspace) (id : String) (change : Block → Block)
    (keepsId : ∀ block, (change block).id = block.id) : Workspace :=
  { blocks := w.blocks.map (fun block => if block.id = id then change block else block)
    variableNames := w.variableNames
    distinct := by
      have hids : (w.blocks.map (fun block => if block.id = id then change block else block)).map
          Block.id = w.blocks.map Block.id := by
        rw [List.map_map]
        refine List.map_congr_left (fun block _ => ?_)
        simp only [Function.comp]
        split
        · exact keepsId block
        · rfl
      rw [hids]
      exact w.distinct }

def declareVariable (w : Workspace) (name : String) : Workspace :=
  if w.variableNames.contains name then w else { w with variableNames := w.variableNames ++ [name] }

def setParent (w : Workspace) (child : String) (link : Link) : Workspace :=
  w.modify child (fun block => { block with parent := some link }) (fun _ => rfl)

def setValue (w : Workspace) (parent socket child : String) : Workspace :=
  w.modify parent (fun block => { block with values := block.values.insert socket child })
    (fun _ => rfl)

def setStatement (w : Workspace) (parent slot child : String) : Workspace :=
  w.modify parent (fun block => { block with statements := block.statements.insert slot child })
    (fun _ => rfl)

def setNext (w : Workspace) (previous child : String) : Workspace :=
  w.modify previous (fun block => { block with next := some child }) (fun _ => rfl)

def setField (w : Workspace) (id name value : String) : Workspace :=
  w.modify id (fun block => { block with fields := block.fields.insert name value }) (fun _ => rfl)

/-- Makes a block hang at a link, unless it hangs already. -/
def adopt (w : Workspace) (child : String) (link : Link) : Except Fault Workspace := do
  let block ← w.block child
  match block.parent with
  | some existing => .error (.linkedTwice child existing.parent link.parent)
  | none => .ok (w.setParent child link)

/-- Makes a child hang at a link and then enters it at the parent with `enter`. A fault of the second
step leaves the child hanging. -/
def connect (w : Workspace) (child : String) (link : Link)
    (enter : Workspace → Block → Except Fault Workspace) : Except Fault Unit × Workspace :=
  match w.adopt child link with
  | .error fault => (.error fault, w)
  | .ok adopted =>
    match adopted.block link.parent with
    | .error fault => (.error fault, adopted)
    | .ok parent =>
      match enter adopted parent with
      | .error fault => (.error fault, adopted)
      | .ok entered => (.ok (), entered)

def connectValue (w : Workspace) (parent socket child : String) : Except Fault Unit × Workspace :=
  w.connect child (.value parent socket) (fun w _ => .ok (w.setValue parent socket child))

def connectStatement (w : Workspace) (parent slot child : String) : Except Fault Unit × Workspace :=
  w.connect child (.statement parent slot) (fun w _ => .ok (w.setStatement parent slot child))

/-- Puts a block after another one, which must be the last of its chain. -/
def connectNext (w : Workspace) (previous child : String) : Except Fault Unit × Workspace :=
  w.connect child (.next previous) fun w block =>
    if block.next.isSome then .error (.nextTaken previous) else .ok (w.setNext previous child)

end Workspace

end RobotBlocks
