import RobotBlocks.Workspace.Basic

/-!
# The forest of a workspace

The links of a proper workspace form a forest: the blocks that hang nowhere are its roots, and every
block is reached from a root on exactly one way. `roots` lists the roots from top to bottom, then from
left to right. `validate` walks down from them and finds the first thing that is wrong.

The walk visits every block at most once, so the number of blocks bounds its steps. `chain` follows a
chain of statements in the same way.
-/

set_option autoImplicit false

namespace RobotBlocks

/-- Whether a block comes before another one in the workspace: it is higher, or as high and more to
the left, or at the same place and smaller by identity. -/
def Block.before (a b : Block) : Bool :=
  if a.y ≠ b.y then a.y < b.y
  else if a.x ≠ b.x then a.x < b.x
  else a.id ≤ b.id

/-- The blocks that hang below a block, the last one first: what comes next, then the statements, then
the values. -/
def Block.below (block : Block) : List String :=
  block.next.toList ++ block.statements.values.reverse ++ block.values.values.reverse

namespace Workspace

/-- The blocks that hang nowhere, from top to bottom and then from left to right. -/
def roots (w : Workspace) : List Block :=
  (w.blocks.filter (fun block => block.parent.isNone)).mergeSort Block.before

def byId (w : Workspace) : List Block := w.blocks.mergeSort (fun a b => a.id ≤ b.id)

/-- Walks down from the blocks that are still to visit. The result is what was visited before and
now. -/
def visit (w : Workspace) : (steps : Nat) → (seen pending : List String) → Except Fault (List String)
  | _, seen, [] => .ok seen
  | 0, _, id :: _ => .error (.reachableTwice id)
  | steps + 1, seen, id :: pending =>
    if seen.contains id then .error (.reachableTwice id)
    else do
      let block ← w.block id
      w.visit steps (id :: seen) (block.below ++ pending)

/-- Walks down from some roots, one after the other. -/
def visitAll (w : Workspace) : (seen : List String) → List Block → Except Fault (List String)
  | seen, [] => .ok seen
  | seen, root :: rest => do
    let seen ← w.visit (w.size + 1) seen [root.id]
    w.visitAll seen rest

/-- Checks that every block is reached from a root on exactly one way. -/
def validate (w : Workspace) : Except Fault Unit := do
  let seen ← w.visitAll [] w.roots
  let stranded := (w.byId.map Block.id).filter (fun id => !seen.contains id)
  if stranded.isEmpty then .ok () else .error (.unreachable stranded)

/-- The blocks of a chain of statements, and the fault that ends it, if it does not just end. -/
def chainFrom (w : Workspace) :
    (steps : Nat) → (seen : List String) → Option String → List Block × Option Fault
  | _, _, none => ([], none)
  | 0, _, some id => ([], some (.chainLoops id))
  | steps + 1, seen, some id =>
    if seen.contains id then ([], some (.chainLoops id))
    else
      match w.block id with
      | .error fault => ([], some fault)
      | .ok block =>
        let (blocks, fault) := w.chainFrom steps (id :: seen) block.next
        (block :: blocks, fault)

def chain (w : Workspace) (start : String) : List Block × Option Fault :=
  w.chainFrom (w.size + 1) [] (some start)

end Workspace

end RobotBlocks
