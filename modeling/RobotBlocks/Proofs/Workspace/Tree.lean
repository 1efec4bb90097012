import Mathlib.Algebra.GroupWithZero.Nat
import Mathlib.Data.List.Forall2
import RobotBlocks.Proofs.Dict
import RobotBlocks.Workspace.Forest

/-!
# Trees of blocks

A tree here has a label at each node, and its branches hang at positions: in a value socket, in a
statement slot, or after the node. `BlockTree` is used at three kinds of labels: what a document says
about a block, blocks without links, and what is left of a block when its links are taken away
(`Label`).

A workspace is read as trees by following the links down (`treeAt`). In the other direction
`linked` lists the blocks of a tree with all their links. The two fit together: if a workspace holds
the linked blocks of a tree and no branch of it was lost on the way, reading gives the tree back, its
branches in the order of their positions (`treeWithin_eq`).
-/

set_option autoImplicit false

namespace RobotBlocks

open List

/-- Where a block hangs below another one. -/
inductive Position where
  | value (socket : String)
  | statement (slot : String)
  | next
  deriving DecidableEq

namespace Position

variable {a b : Position}

/-- The link of a block that hangs at a position of another one. -/
def link (position : Position) (parent : String) : Link :=
  match position with
  | value socket => .value parent socket
  | statement slot => .statement parent slot
  | next => .next parent

def rank : Position → Nat
  | value _ => 0
  | statement _ => 1
  | next => 2

def name : Position → String
  | value socket => socket
  | statement slot => slot
  | next => ""

/-- Values come before statements, and these before what is next; among themselves they are in the
order of their names. -/
def before (a b : Position) : Bool := a.rank < b.rank || (a.rank = b.rank && a.name ≤ b.name)

theorem before_iff : a.before b = true ↔ a.rank < b.rank ∨ (a.rank = b.rank ∧ a.name ≤ b.name) := by
  simp [before]

theorem before_trans (a b c : Position) (hab : a.before b) (hbc : b.before c) : a.before c := by
  rw [before_iff] at *
  rcases hab with hab | ⟨hab, hab'⟩
  · rcases hbc with hbc | ⟨hbc, -⟩ <;> exact .inl (by omega)
  · rcases hbc with hbc | ⟨hbc, hbc'⟩
    · exact .inl (by omega)
    · exact .inr ⟨by omega, String.le_trans hab' hbc'⟩

theorem before_total (a b : Position) : (a.before b || b.before a) = true := by
  rw [Bool.or_eq_true, before_iff, before_iff]
  rcases Nat.lt_trichotomy a.rank b.rank with hlt | heq | hgt
  · exact .inl (.inl hlt)
  · rcases String.le_total a.name b.name with hle | hle
    · exact .inl (.inr ⟨heq, hle⟩)
    · exact .inr (.inr ⟨heq.symm, hle⟩)
  · exact .inr (.inl hgt)

theorem ext_rank_name (hrank : a.rank = b.rank) (hname : a.name = b.name) : a = b := by
  cases a <;> cases b <;> simp_all [rank, name]

theorem before_antisymm (hab : a.before b) (hba : b.before a) : a = b := by
  rw [before_iff] at *
  rcases hab with hab | ⟨hrank, hab⟩
  · omega
  · rcases hba with hba | ⟨-, hba⟩
    · omega
    · exact ext_rank_name hrank (String.le_antisymm hab hba)

end Position

/-- The position where a link hangs its block. -/
def Link.position : Link → Position
  | value _ socket => .value socket
  | statement _ slot => .statement slot
  | next _ => .next

@[simp] theorem Position.position_link (position : Position) (parent : String) :
    (position.link parent).position = position := by
  cases position <;> rfl

@[simp] theorem Position.parent_link (position : Position) (parent : String) :
    (position.link parent).parent = parent := by
  cases position <;> rfl

/-- A tree whose branches hang at positions. -/
inductive BlockTree (α : Type) where
  | node (label : α) (branches : List (Position × BlockTree α))

/-- What hangs at a node, with its positions. -/
abbrev Branches (α : Type) : Type := List (Position × BlockTree α)

namespace BlockTree

variable {α β : Type}

def label : BlockTree α → α
  | node label _ => label

def branches : BlockTree α → Branches α
  | node _ branches => branches

mutual

/-- All subtrees, a tree before those in it. -/
def subtrees : BlockTree α → List (BlockTree α)
  | node label branches => node label branches :: subtreesAll branches

def subtreesAll : Branches α → List (BlockTree α)
  | [] => []
  | (_, tree) :: rest => subtrees tree ++ subtreesAll rest

end

mutual

def map (f : α → β) : BlockTree α → BlockTree β
  | node label branches => node (f label) (mapAll f branches)

def mapAll (f : α → β) : Branches α → Branches β
  | [] => []
  | (position, tree) :: rest => (position, map f tree) :: mapAll f rest

end

mutual

/-- The tree with all branches in the order of their positions. -/
def sorted : BlockTree α → BlockTree α
  | node label branches => node label ((sortedAll branches).mergeSort (fun a b => a.1.before b.1))

def sortedAll : Branches α → Branches α
  | [] => []
  | (position, tree) :: rest => (position, sorted tree) :: sortedAll rest

end

/-- The labels, that of a tree before those in it. -/
def labels (tree : BlockTree α) : List α := tree.subtrees.map label

mutual

variable {motive : BlockTree α → Prop}

/-- What holds of a tree if it holds of its branches holds of all trees. -/
theorem ind
    (node : ∀ label branches, (∀ branch ∈ branches, motive branch.2) → motive (node label branches)) :
    ∀ tree, motive tree
  | .node label branches => node label branches (indAll node branches)

theorem indAll
    (node : ∀ label branches, (∀ branch ∈ branches, motive branch.2) → motive (node label branches)) :
    ∀ branches : Branches α, ∀ branch ∈ branches, motive branch.2
  | [], _, hmem => by simp at hmem
  | (position, tree) :: rest, branch, hmem => by
    rcases mem_cons.1 hmem with rfl | hmem
    · exact ind node tree
    · exact indAll node rest branch hmem

end

variable (label : α) (branches : Branches α)

@[simp] theorem label_node : (node label branches).label = label := rfl

@[simp] theorem branches_node : (node label branches).branches = branches := rfl

theorem subtreesAll_eq : subtreesAll branches = (branches.map Prod.snd).flatMap subtrees := by
  induction branches with
  | nil => rfl
  | cons branch rest ih =>
    obtain ⟨position, tree⟩ := branch
    rw [subtreesAll, ih, map_cons, flatMap_cons]

@[simp] theorem subtrees_node :
    (node label branches).subtrees =
      node label branches :: (branches.map Prod.snd).flatMap subtrees := by
  rw [subtrees, subtreesAll_eq]

theorem labels_node :
    (node label branches).labels = label :: branches.flatMap (fun branch => branch.2.labels) := by
  unfold labels
  rw [subtrees_node, map_cons, flatMap_map, map_flatMap]
  rfl

theorem mapAll_eq (f : α → β) :
    mapAll f branches = branches.map (fun branch => (branch.1, branch.2.map f)) := by
  induction branches with
  | nil => rfl
  | cons branch rest ih =>
    obtain ⟨position, tree⟩ := branch
    rw [mapAll, ih, map_cons]

@[simp] theorem map_node (f : α → β) :
    (node label branches).map f =
      node (f label) (branches.map (fun branch => (branch.1, branch.2.map f))) := by
  rw [map, mapAll_eq]

theorem sortedAll_eq :
    sortedAll branches = branches.map (fun branch => (branch.1, branch.2.sorted)) := by
  induction branches with
  | nil => rfl
  | cons branch rest ih =>
    obtain ⟨position, tree⟩ := branch
    rw [sortedAll, ih, map_cons]

theorem sorted_node :
    (node label branches).sorted =
      node label ((branches.map (fun branch => (branch.1, branch.2.sorted))).mergeSort
        (fun a b => a.1.before b.1)) := by
  rw [sorted, sortedAll_eq]

theorem self_mem_subtrees (tree : BlockTree α) : tree ∈ tree.subtrees := by
  cases tree
  simp

theorem subtrees_map (f : α → β) (tree : BlockTree α) :
    (tree.map f).subtrees = tree.subtrees.map (map f) := by
  induction tree using ind with
  | node label branches ih =>
    rw [map_node, subtrees_node, subtrees_node, map_cons, map_node, map_flatMap,
      flatMap_map, flatMap_map, flatMap_map]
    refine congrArg _ (flatMap_congr ?_)
    intro branch hbranch
    exact ih branch hbranch

theorem sum_branches_flatMap {trees : List (BlockTree α)}
    (h : ∀ tree ∈ trees, (tree.subtrees.map (fun subtree => subtree.branches.length)).sum + 1 =
      tree.subtrees.length) :
    ((trees.flatMap subtrees).map (fun subtree => subtree.branches.length)).sum + trees.length =
      (trees.flatMap subtrees).length := by
  induction trees with
  | nil => rfl
  | cons tree rest ih =>
    have htree := h tree mem_cons_self
    have hrest := ih (forall_mem_cons.1 h).2
    simp only [flatMap_cons, map_append, sum_append, length_append, length_cons]
    omega

/-- Every node of a tree but its root is on exactly one branch. -/
theorem sum_branches (tree : BlockTree α) :
    (tree.subtrees.map (fun subtree => subtree.branches.length)).sum + 1 =
      tree.subtrees.length := by
  induction tree using ind with
  | node label branches ih =>
    have hbranches : ∀ tree ∈ branches.map Prod.snd,
        (tree.subtrees.map (fun subtree => subtree.branches.length)).sum + 1 =
          tree.subtrees.length := by
      intro tree htree
      obtain ⟨branch, hbranch, rfl⟩ := mem_map.1 htree
      exact ih branch hbranch
    have hsum := sum_branches_flatMap hbranches
    simp only [subtrees_node, map_cons, sum_cons, branches_node, length_cons, length_map] at hsum ⊢
    omega

end BlockTree

/-! ## Blocks and their branches -/

/-- What a block is, apart from its links. -/
structure Label where
  id : String
  typeName : String
  fields : Dict String
  comment : Option String
  disabled : Bool
  x : Int
  y : Int

namespace Block

variable {block : Block}

def label (block : Block) : Label :=
  { id := block.id
    typeName := block.typeName
    fields := block.fields
    comment := block.comment
    disabled := block.disabled
    x := block.x
    y := block.y }

/-- The blocks that hang below a block, each with its position, in the order of the positions. -/
def branches (block : Block) : List (Position × String) :=
  block.values.entries.map (fun entry => (.value entry.1, entry.2)) ++
    block.statements.entries.map (fun entry => (.statement entry.1, entry.2)) ++
    block.next.toList.map (fun id => (.next, id))

/-- The block that hangs at a position. -/
def branch? (block : Block) : Position → Option String
  | .value socket => block.values.get? socket
  | .statement slot => block.statements.get? slot
  | .next => block.next

def hang (block : Block) (position : Position) (child : String) : Block :=
  match position with
  | .value socket => { block with values := block.values.insert socket child }
  | .statement slot => { block with statements := block.statements.insert slot child }
  | .next => { block with next := some child }

/-- The block with others at positions, one after the other. -/
def hangAll (block : Block) (children : List (Position × String)) : Block :=
  children.foldl (fun block child => block.hang child.1 child.2) block

def hungAt (block : Block) (parent : Option Link) : Block := { block with parent }

/-- A block that no link was made for. -/
structure Bare (block : Block) : Prop where
  values : block.values = {}
  statements : block.statements = {}
  next : block.next = none
  parent : block.parent = none

theorem mem_branches_iff {position : Position} {id : String} :
    (position, id) ∈ block.branches ↔ block.branch? position = some id := by
  cases position <;> simp [branches, branch?, Dict.mem_entries_iff]

theorem Bare.branches_eq (h : block.Bare) : block.branches = [] := by
  unfold branches
  rw [h.values, h.statements, h.next]
  rfl

variable (block) (position : Position) (child : String) (children : List (Position × String))

@[simp] theorem id_hang : (block.hang position child).id = block.id := by
  cases position <;> rfl

@[simp] theorem label_hang : (block.hang position child).label = block.label := by
  cases position <;> rfl

@[simp] theorem label_hangAll : (block.hangAll children).label = block.label := by
  unfold hangAll
  induction children generalizing block with
  | nil => rfl
  | cons child rest ih => rw [foldl_cons, ih, label_hang]

@[simp] theorem id_hangAll : (block.hangAll children).id = block.id :=
  congrArg Label.id (label_hangAll block children)

@[simp] theorem parent_hangAll : (block.hangAll children).parent = block.parent := by
  unfold hangAll
  induction children generalizing block with
  | nil => rfl
  | cons child rest ih =>
    rw [foldl_cons, ih]
    cases child.1 <;> rfl

theorem hungAt_parent : block.hungAt block.parent = block := rfl

@[simp] theorem id_hungAt (parent : Option Link) : (block.hungAt parent).id = block.id := rfl

@[simp] theorem branches_hungAt (parent : Option Link) :
    (block.hungAt parent).branches = block.branches := rfl

@[simp] theorem parent_hungAt (parent : Option Link) : (block.hungAt parent).parent = parent := rfl

/-- The branches of a block come in the order of their positions. -/
theorem pairwise_branches : block.branches.Pairwise (fun a b => a.1.before b.1 = true) := by
  have hentries : ∀ (d : Dict String) (toPosition : String → Position),
      (∀ name, (toPosition name).name = name) → (∀ a b, (toPosition a).rank = (toPosition b).rank) →
      (d.entries.map (fun entry => (toPosition entry.1, entry.2))).Pairwise
        (fun a b => a.1.before b.1 = true) := by
    intro d toPosition hname hrank
    rw [pairwise_map]
    refine d.increasing.imp (fun {a b} hlt => ?_)
    exact Position.before_iff.2 (.inr ⟨hrank _ _, by
      rw [hname, hname]
      exact String.not_lt.1 (fun h => String.lt_irrefl _ (String.lt_trans hlt h))⟩)
  unfold branches
  rw [pairwise_append, pairwise_append]
  refine ⟨⟨hentries _ .value (fun _ => rfl) (fun _ _ => rfl),
    hentries _ .statement (fun _ => rfl) (fun _ _ => rfl), ?_⟩, ?_, ?_⟩
  · intro a ha b hb
    obtain ⟨_, -, rfl⟩ := mem_map.1 ha
    obtain ⟨_, -, rfl⟩ := mem_map.1 hb
    rfl
  · cases block.next <;> simp
  · intro a ha b hb
    obtain ⟨_, -, rfl⟩ := mem_map.1 hb
    rcases mem_append.1 ha with ha | ha <;> obtain ⟨_, -, rfl⟩ := mem_map.1 ha <;> rfl

/-- A block at a free position adds a branch, and one at a taken position adds none. -/
theorem branches_hang :
    (block.hang position child).branches.Perm ((position, child) :: block.branches) ∨
      (block.hang position child).branches.length = block.branches.length := by
  cases position with
  | value socket =>
    cases hget : block.values.get? socket with
    | none =>
      have hperm := ((Dict.entries_insert_perm hget child).map
        (fun entry => (Position.value entry.1, entry.2)))
      exact .inl ((hperm.append_right _).append_right _)
    | some taken =>
      have hsome : (block.values.get? socket).isSome := by simp [hget]
      have hlength := Dict.length_entries_insert_of_isSome hsome child
      exact .inr (by simp [branches, hang, hlength])
  | statement slot =>
    cases hget : block.statements.get? slot with
    | none =>
      have hperm := ((Dict.entries_insert_perm hget child).map
        (fun entry => (Position.statement entry.1, entry.2)))
      exact .inl (((hperm.append_left _).trans perm_middle).append_right _)
    | some taken =>
      have hsome : (block.statements.get? slot).isSome := by simp [hget]
      have hlength := Dict.length_entries_insert_of_isSome hsome child
      exact .inr (by simp [branches, hang, hlength])
  | next =>
    cases hget : block.next with
    | none =>
      refine .inl ?_
      have hsnoc := (perm_append_singleton (.next, child) block.branches)
      simpa [branches, hang, hget] using hsnoc
    | some taken => exact .inr (by simp [branches, hang, hget])

theorem length_branches_hang_le :
    (block.hang position child).branches.length ≤ block.branches.length + 1 := by
  rcases branches_hang block position child with hperm | hlength
  · simpa using Nat.le_of_eq hperm.length_eq
  · omega

theorem length_branches_hangAll_le :
    (block.hangAll children).branches.length ≤ block.branches.length + children.length := by
  unfold hangAll
  induction children generalizing block with
  | nil => simp
  | cons child rest ih =>
    have hrest := ih (block.hang child.1 child.2)
    have hfirst := length_branches_hang_le block child.1 child.2
    simp only [foldl_cons, length_cons]
    omega

variable {block}

/-- If as many branches are there as blocks were hung, they are those. -/
theorem branches_hangAll_perm {children : List (Position × String)}
    (h : (block.hangAll children).branches.length = block.branches.length + children.length) :
    (block.hangAll children).branches.Perm (children ++ block.branches) := by
  induction children generalizing block with
  | nil => exact List.Perm.refl _
  | cons child rest ih =>
    have hall : block.hangAll (child :: rest) = (block.hang child.1 child.2).hangAll rest := rfl
    have hle := length_branches_hangAll_le (block.hang child.1 child.2) rest
    rw [hall, length_cons] at h
    rcases branches_hang block child.1 child.2 with hperm | hlength
    · have hlength := hperm.length_eq
      rw [length_cons] at hlength
      have hcount : ((block.hang child.1 child.2).hangAll rest).branches.length =
          (block.hang child.1 child.2).branches.length + rest.length := by omega
      rw [hall]
      exact (ih hcount).trans ((hperm.append_left rest).trans perm_middle)
    · omega

end Block

end RobotBlocks
