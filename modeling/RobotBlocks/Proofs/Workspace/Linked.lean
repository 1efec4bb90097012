import RobotBlocks.Proofs.Lists
import RobotBlocks.Proofs.Workspace.Tree
import RobotBlocks.Proofs.Yields

/-!
# Workspaces as trees

`treeAt` reads a workspace from a block down along its links. `linked` lists the blocks of a tree with
all the links that the tree asks for. A workspace that lists the linked blocks of some trees
(`Lists`) gives the trees back when it is read from their roots, if no branch was lost (`Complete`):
two branches at one position leave only one link.

Whether a branch was lost can be seen from the number of links. A workspace that passes its check has
as many blocks as roots and links together, because the check comes to every block exactly once, from
a root or along a link (`length_blocks_of_validate`). In a tree the number of nodes is one more than
that of branches, so there are as many links as branches, and none was lost.
-/

set_option autoImplicit false

namespace RobotBlocks

open List BlockTree

namespace BlockTree

/-- The blocks directly below the root of a tree, each with its position. -/
def children (tree : BlockTree Block) : List (Position × String) :=
  tree.branches.map (fun branch => (branch.1, branch.2.label.id))

mutual

/-- The blocks of a tree with all their links, if its root hangs at the given link. -/
def linked (parent : Option Link) : BlockTree Block → List Block
  | node block branches =>
    (block.hangAll (branches.map (fun branch => (branch.1, branch.2.label.id)))).hungAt parent ::
      linkedAll block.id branches

def linkedAll (parent : String) : Branches Block → List Block
  | [] => []
  | (position, tree) :: rest => linked (some (position.link parent)) tree ++ linkedAll parent rest

end

/-- A block with the links to what hangs below the root of a tree. -/
def IsLinked (block : Block) (tree : BlockTree Block) : Prop :=
  ∃ parent, block = (tree.label.hangAll tree.children).hungAt parent

theorem subtrees_sublist_of_branch {α : Type} {tree : BlockTree α} {branch : Position × BlockTree α}
    (h : branch ∈ tree.branches) : branch.2.subtrees.Sublist tree.subtrees := by
  obtain ⟨label, branches⟩ := tree
  rw [subtrees_node]
  exact (sublist_flatten_of_mem (mem_map_of_mem (mem_map_of_mem h))).cons _

@[simp] theorem length_children (tree : BlockTree Block) :
    tree.children.length = tree.branches.length := by
  simp [children]

theorem linkedAll_eq (parent : String) (branches : Branches Block) :
    linkedAll parent branches =
      branches.flatMap (fun branch => branch.2.linked (some (branch.1.link parent))) := by
  induction branches with
  | nil => rfl
  | cons branch rest ih =>
    obtain ⟨position, tree⟩ := branch
    rw [linkedAll, ih, flatMap_cons]

theorem linked_node (parent : Option Link) (block : Block) (branches : Branches Block) :
    (node block branches).linked parent =
      (block.hangAll (node block branches).children).hungAt parent ::
        branches.flatMap (fun branch => branch.2.linked (some (branch.1.link block.id))) := by
  rw [linked, linkedAll_eq]
  rfl

/-- The linked blocks of a tree are those of its subtrees, in order. -/
theorem forall₂_linked (parent : Option Link) (tree : BlockTree Block) :
    List.Forall₂ IsLinked (tree.linked parent) tree.subtrees := by
  induction tree using ind generalizing parent with
  | node block branches ih =>
    rw [linked_node, subtrees_node, flatMap_map]
    refine List.Forall₂.cons ⟨parent, rfl⟩ (forall₂_flatMap ?_)
    intro branch hbranch
    exact ih branch hbranch _

/-- Where a block of a tree hangs: the root at the given link, and any other block at the branch that
holds it. -/
theorem parent_of_mem_linked {parent : Option Link} {tree : BlockTree Block} {block : Block}
    (h : block ∈ tree.linked parent) :
    (block.parent = parent ∧ block.id = tree.label.id) ∨
      ∃ subtree ∈ tree.subtrees, ∃ branch ∈ subtree.branches,
        block.parent = some (branch.1.link subtree.label.id) ∧ block.id = branch.2.label.id := by
  induction tree using ind generalizing parent with
  | node root branches ih =>
    rw [linked_node] at h
    rcases mem_cons.1 h with rfl | h
    · exact .inl ⟨rfl, by simp⟩
    · obtain ⟨branch, hbranch, hblock⟩ := mem_flatMap.1 h
      refine .inr ?_
      rcases ih branch hbranch hblock with ⟨hparent, hid⟩ | ⟨subtree, hsubtree, hrest⟩
      · exact ⟨_, self_mem_subtrees _, branch, hbranch, hparent, hid⟩
      · exact ⟨subtree, (subtrees_sublist_of_branch hbranch).subset hsubtree, hrest⟩

/-- The root of a tree is its only block that may hang nowhere. -/
theorem filter_linked_none (tree : BlockTree Block) :
    (tree.linked none).filter (fun block => block.parent.isNone) =
      [(tree.label.hangAll tree.children).hungAt none] := by
  obtain ⟨root, branches⟩ := tree
  rw [linked_node, filter_cons_of_pos rfl]
  refine congrArg _ (filter_eq_nil_iff.2 ?_)
  intro block hblock
  obtain ⟨branch, -, hmem⟩ := mem_flatMap.1 hblock
  rcases parent_of_mem_linked hmem with ⟨hparent, -⟩ | ⟨_, -, _, -, hparent, -⟩ <;> simp [hparent]

end BlockTree

namespace Workspace

variable {w : Workspace}

/-- The tree below a block, if it is at most `depth` deep. -/
def treeWithin (w : Workspace) : (depth : Nat) → String → Option (BlockTree Label)
  | 0, _ => none
  | depth + 1, id => do
    let block ← w.get? id
    let branches ← block.branches.mapM (fun (position, child) => do
      return (position, ← w.treeWithin depth child))
    return .node block.label branches

def treeAt (w : Workspace) (id : String) : Option (BlockTree Label) := w.treeWithin w.size id

/-- The workspace consists of the linked blocks of some trees. -/
def Lists (w : Workspace) (forest : List (BlockTree Block)) : Prop :=
  w.blocks = forest.flatMap (BlockTree.linked none)

theorem byId_eq_blocks (h : w.blocks.Pairwise (fun a b => a.id ≤ b.id)) : w.byId = w.blocks :=
  mergeSort_of_pairwise (by simpa using h)

theorem id_of_get? {id : String} {block : Block} (h : w.get? id = some block) : block.id = id := by
  simpa using find?_some h

theorem get?_of_mem {block : Block} (h : block ∈ w.blocks) : w.get? block.id = some block := by
  cases hget : w.get? block.id with
  | none => exact absurd (mem_map_of_mem h) (not_mem_ids_of_get?_eq_none hget)
  | some found =>
    have hmem : found ∈ w.blocks := mem_of_find?_eq_some hget
    rw [inj_on_of_nodup_map w.distinct hmem h (id_of_get? hget)]

/-! ## Reading back -/

/-- No branch of a tree is lost when its blocks are linked. -/
def Complete (tree : BlockTree Block) : Prop :=
  ∀ subtree ∈ tree.subtrees,
    (subtree.label.hangAll subtree.children).branches.Perm subtree.children

/-- The workspace has the linked block of every node of a tree. -/
def Holds (w : Workspace) (tree : BlockTree Block) : Prop :=
  ∀ subtree ∈ tree.subtrees, ∃ block,
    w.get? subtree.label.id = some block ∧ BlockTree.IsLinked block subtree

/-- The branches of a linked block are those of the tree, in the order of their positions. -/
theorem branches_eq_mergeSort {block : Block} {branches : Branches Block}
    (h : block.branches.Perm (branches.map (fun branch => (branch.1, branch.2.label.id)))) :
    block.branches = (branches.mergeSort (fun a b => a.1.before b.1)).map
      (fun branch => (branch.1, branch.2.label.id)) := by
  have hsorted : ((branches.mergeSort (fun a b => a.1.before b.1)).map
      (fun branch => (branch.1, branch.2.label.id))).Pairwise
        (fun a b => a.1.before b.1 = true) := by
    rw [pairwise_map]
    exact pairwise_mergeSort (fun a b c => Position.before_trans a.1 b.1 c.1)
      (fun a b => Position.before_total a.1 b.1) branches
  have hperm : block.branches.Perm ((branches.mergeSort (fun a b => a.1.before b.1)).map
      (fun branch => (branch.1, branch.2.label.id))) :=
    h.trans ((mergeSort_perm branches _).map _).symm
  refine List.Perm.eq_of_pairwise ?_ block.pairwise_branches hsorted hperm
  rintro ⟨position, id⟩ ⟨position', id'⟩ hmem hmem' hbefore hbefore'
  -- two branches of a block at one position are the same
  obtain rfl : position = position' := Position.before_antisymm hbefore hbefore'
  have hid := Block.mem_branches_iff.1 hmem
  have hid' := Block.mem_branches_iff.1 (hperm.mem_iff.2 hmem')
  rw [hid] at hid'
  rw [Option.some.inj hid']

/-- A complete tree is read back from a workspace that holds it. -/
theorem treeWithin_eq {tree : BlockTree Block} {depth : Nat} (hholds : w.Holds tree)
    (hcomplete : Complete tree) (hdepth : tree.subtrees.length ≤ depth) :
    w.treeWithin depth tree.label.id = some (tree.map Block.label).sorted := by
  induction tree using BlockTree.ind generalizing depth with
  | node label branches ih =>
    cases depth with
    | zero => simp at hdepth
    | succ depth =>
      obtain ⟨block, hget, parent, hblock⟩ := hholds _ (self_mem_subtrees _)
      have hperm := hcomplete _ (self_mem_subtrees _)
      have hbranches : block.branches = (branches.mergeSort (fun a b => a.1.before b.1)).map
          (fun branch => (branch.1, branch.2.label.id)) := by
        refine branches_eq_mergeSort ?_
        rw [hblock]
        exact hperm
      have hlabel : block.label = label.label := by
        rw [hblock]
        exact Block.label_hangAll label _
      have hbelow : ∀ branch ∈ branches,
          w.treeWithin depth branch.2.label.id = some (branch.2.map Block.label).sorted := by
        intro branch hbranch
        have hsub : branch.2.subtrees ⊆ (BlockTree.node label branches).subtrees :=
          (subtrees_sublist_of_branch hbranch).subset
        refine ih branch hbranch (fun subtree h => hholds subtree (hsub h))
          (fun subtree h => hcomplete subtree (hsub h)) ?_
        have hlength : branch.2.subtrees.length ≤
            ((branches.map Prod.snd).flatMap BlockTree.subtrees).length :=
          (sublist_flatten_of_mem
            (mem_map_of_mem (mem_map_of_mem hbranch))).length_le
        rw [subtrees_node, length_cons] at hdepth
        omega
      have hsort : (branches.mergeSort (fun a b => a.1.before b.1)).map
            (fun branch => (branch.1, (branch.2.map Block.label).sorted)) =
          (branches.map (fun branch => (branch.1, (branch.2.map Block.label).sorted))).mergeSort
            (fun a b => a.1.before b.1) :=
        map_mergeSort (fun _ _ _ _ => rfl)
      unfold treeWithin
      rw [hget, Option.bind_eq_bind, Option.bind_some, hbranches, mapM_map,
        mapM_eq_some_map (g := fun branch => (branch.1, (branch.2.map Block.label).sorted))]
      · rw [hlabel, map_node, sorted_node, map_map, hsort]
        rfl
      · intro branch hbranch
        have hmem : branch ∈ branches := mem_mergeSort.1 hbranch
        simp [hbelow branch hmem]

/-! ## Counting -/

theorem length_below (block : Block) : block.below.length = block.branches.length := by
  simp only [Block.below, Block.branches, Dict.values, length_append, length_reverse, length_map]
  omega

theorem mem_of_block_eq_ok {id : String} {block : Block} (h : w.block id = .ok block) :
    block ∈ w.blocks ∧ block.id = id := by
  unfold Workspace.block at h
  split at h
  · rename_i found hfound
    cases h
    exact ⟨mem_of_find?_eq_some hfound, id_of_get? hfound⟩
  · cases h

/-- What every step of a walk keeps holds at its end, if it ends well. -/
theorem visit_induction {P : (seen pending : List String) → Prop} {steps : Nat}
    {seen pending seen' : List String} (h : w.visit steps seen pending = .ok seen')
    (hstart : P seen pending)
    (hstep : ∀ seen pending, ∀ block ∈ w.blocks, block.id ∉ seen → P seen (block.id :: pending) →
      P (block.id :: seen) (block.below ++ pending)) : P seen' [] := by
  fun_induction visit w steps seen pending with
  | case1 =>
    cases h
    exact hstart
  | case2 | case3 => cases h
  | case4 steps seen id pending hnew ih =>
    obtain ⟨block, hblock, h⟩ := Known.bind_eq_ok_iff.1 h
    obtain ⟨hmem, rfl⟩ := mem_of_block_eq_ok hblock
    exact ih block h (hstep seen pending block hmem (by simpa using hnew) hstart)

/-- A walk that ends well comes to every pending block and to what is below the blocks it comes to,
each once. -/
theorem visit_eq_ok {steps : Nat} {seen pending seen' : List String}
    (h : w.visit steps seen pending = .ok seen') :
    ∃ visited : List Block, seen' = (visited.map Block.id).reverse ++ seen ∧
      (∀ block ∈ visited, block ∈ w.blocks) ∧
      (visited.map Block.id).Perm (pending ++ visited.flatMap Block.below) ∧
      (seen.Nodup → seen'.Nodup) := by
  have hkeeps := @visit_induction w (fun seen' rest =>
    ∃ visited : List Block, seen' = (visited.map Block.id).reverse ++ seen ∧
      (∀ block ∈ visited, block ∈ w.blocks) ∧
      (visited.map Block.id ++ rest).Perm (pending ++ visited.flatMap Block.below) ∧
      (seen.Nodup → seen'.Nodup)) _ _ _ _ h ⟨[], by simp⟩ ?_
  · simpa using hkeeps
  · rintro _ rest block hblock hnew ⟨visited, rfl, hmem, hids, hnodup⟩
    refine ⟨visited ++ [block], by simp, ?_, ?_, fun h => nodup_cons.2 ⟨hnew, hnodup h⟩⟩
    · exact forall_mem_append.2 ⟨hmem, by simpa using hblock⟩
    · have hbelow := hids.append_right block.below
      have hcomm := ((@perm_append_comm _ block.below rest).cons block.id).append_left
        (visited.map Block.id)
      simpa using hcomm.trans (by simpa using hbelow)

/-- Visits that end well meet the roots and all below them, each once. -/
theorem visitAll_eq_ok {roots : List Block} {seen seen' : List String}
    (h : w.visitAll seen roots = .ok seen') :
    ∃ visited : List Block, seen' = (visited.map Block.id).reverse ++ seen ∧
      (∀ block ∈ visited, block ∈ w.blocks) ∧
      (visited.map Block.id).Perm (roots.map Block.id ++ visited.flatMap Block.below) ∧
      (seen.Nodup → seen'.Nodup) := by
  induction roots generalizing seen with
  | nil =>
    obtain rfl : seen = seen' := by simpa [visitAll] using h
    exact ⟨[], by simp⟩
  | cons root rest ih =>
    unfold visitAll at h
    obtain ⟨between, hvisit, h⟩ := Known.bind_eq_ok_iff.1 h
    obtain ⟨first, hbetween, hfirst, hids, hnodup⟩ := visit_eq_ok hvisit
    obtain ⟨others, hseen, hothers, hids', hnodup'⟩ := ih h
    refine ⟨first ++ others, by simp [hseen, hbetween], ?_, ?_, fun hn => hnodup' (hnodup hn)⟩
    · intro block hblock
      rcases mem_append.1 hblock with hblock | hblock
      · exact hfirst block hblock
      · exact hothers block hblock
    · rw [map_append, flatMap_append]
      refine (hids.append hids').trans (List.Perm.cons root.id ?_)
      exact perm_append_comm_assoc _ _ _

/-- The check of a workspace comes to every block once. -/
theorem exists_visited_of_validate (h : w.validate = .ok ()) :
    ∃ visited : List Block, w.visitAll [] w.roots = .ok (visited.map Block.id).reverse ∧
      visited.Perm w.blocks ∧
      (visited.map Block.id).Perm (w.roots.map Block.id ++ visited.flatMap Block.below) := by
  unfold validate at h
  obtain ⟨seen, hvisit, h⟩ := Known.bind_eq_ok_iff.1 h
  obtain ⟨visited, hseen, hmem, hlinks, hnodup⟩ := visitAll_eq_ok hvisit
  have hids : (visited.map Block.id).Nodup := by
    have hseenNodup := hnodup nodup_nil
    rw [hseen, append_nil] at hseenNodup
    exact nodup_reverse.1 hseenNodup
  have hreached : ∀ block ∈ w.blocks, block.id ∈ visited.map Block.id := by
    have hnone : ∀ block ∈ w.blocks, block.id ∈ seen := by
      simpa [byId] using h
    intro block hblock
    simpa [hseen] using hnone block hblock
  have hperm : visited.Perm w.blocks := by
    refine (perm_ext_iff_of_nodup hids.of_map w.distinct.of_map).2 (fun block => ?_)
    refine ⟨hmem block, fun hblock => ?_⟩
    obtain ⟨other, hother, hid⟩ := mem_map.1 (hreached block hblock)
    rwa [← inj_on_of_nodup_map w.distinct (hmem other hother) hblock hid]
  rw [append_nil] at hseen
  exact ⟨visited, by rw [hvisit, hseen], hperm, hlinks⟩

/-- In a workspace that passes its check, the roots and what hangs below the blocks are all blocks,
each once. -/
theorem ids_perm_of_validate (h : w.validate = .ok ()) :
    (w.blocks.map Block.id).Perm (w.roots.map Block.id ++ w.blocks.flatMap Block.below) := by
  obtain ⟨visited, -, hperm, hlinks⟩ := exists_visited_of_validate h
  exact (hperm.map _).symm.trans (hlinks.trans ((hperm.flatMap_right _).append_left _))

/-- A workspace that passes its check has as many blocks as roots and links together. -/
theorem length_blocks_of_validate (h : w.validate = .ok ()) :
    w.blocks.length =
      w.roots.length + (w.blocks.map (fun block => block.branches.length)).sum := by
  have hlength := (ids_perm_of_validate h).length_eq
  simpa only [length_append, length_map, length_flatMap, length_below] using hlength

/-- The check of a workspace whose blocks and roots are listed in their order. -/
theorem validate_of_sorted (hids : w.blocks.Pairwise (fun a b => a.id ≤ b.id))
    (hroots : (w.blocks.filter (fun block => block.parent.isNone)).Pairwise
      (fun a b => a.before b = true)) :
    w.validate = (do
      let seen ← w.visitAll [] (w.blocks.filter (fun block => block.parent.isNone))
      let stranded := (w.blocks.map Block.id).filter (fun id => !seen.contains id)
      if stranded.isEmpty then .ok () else .error (.unreachable stranded)) := by
  unfold validate
  rw [byId_eq_blocks hids, show w.roots = _ from mergeSort_of_pairwise hroots]

section

variable {w : Workspace} {forest : List (BlockTree Block)}

variable (h : w.Lists forest)

include h

theorem forall₂_blocks :
    List.Forall₂ BlockTree.IsLinked w.blocks (forest.flatMap BlockTree.subtrees) := by
  rw [h]
  exact forall₂_flatMap (fun tree _ => forall₂_linked none tree)

theorem filter_blocks_eq :
    w.blocks.filter (fun block => block.parent.isNone) =
      forest.map (fun tree => (tree.label.hangAll tree.children).hungAt none) := by
  rw [h, filter_flatMap, map_eq_flatMap]
  refine flatMap_congr (fun tree _ => ?_)
  exact filter_linked_none tree

theorem roots_perm :
    w.roots.Perm
      (forest.map (fun tree => (tree.label.hangAll tree.children).hungAt none)) := by
  rw [← filter_blocks_eq h]
  exact mergeSort_perm _ _

theorem exists_block_of_mem_subtrees {subtree : BlockTree Block}
    (hmem : subtree ∈ forest.flatMap BlockTree.subtrees) :
    ∃ block, w.get? subtree.label.id = some block ∧ BlockTree.IsLinked block subtree := by
  obtain ⟨block, hblock, parent, rfl⟩ := exists_left_of_forall₂ (forall₂_blocks h) hmem
  refine ⟨_, ?_, parent, rfl⟩
  simpa using get?_of_mem hblock

/-- In a valid workspace no tree has lost a branch. -/
theorem complete_of_validate (hbare : ∀ tree ∈ forest, ∀ block ∈ tree.labels, block.Bare)
    (hvalid : w.validate = .ok ()) : ∀ tree ∈ forest, Complete tree := by
  have hbareSubtree : ∀ subtree ∈ forest.flatMap BlockTree.subtrees, subtree.label.Bare := by
    intro subtree hsubtree
    obtain ⟨tree, htree, hmem⟩ := mem_flatMap.1 hsubtree
    exact hbare tree htree _ (mem_map_of_mem hmem)
  have hlinks : ∀ block, ∀ subtree ∈ forest.flatMap BlockTree.subtrees,
      BlockTree.IsLinked block subtree → block.branches.length ≤ subtree.branches.length := by
    rintro block subtree hmem ⟨parent, rfl⟩
    have hle := Block.length_branches_hangAll_le subtree.label subtree.children
    rw [(hbareSubtree subtree hmem).branches_eq] at hle
    simpa using hle
  have hroots : w.roots.length = forest.length := by
    simpa using (roots_perm h).length_eq
  have hnodes : ((forest.flatMap BlockTree.subtrees).map
      (fun subtree => subtree.branches.length)).sum + forest.length = w.blocks.length := by
    rw [(forall₂_blocks h).length_eq]
    exact sum_branches_flatMap (fun tree _ => tree.sum_branches)
  have hcount := length_blocks_of_validate hvalid
  -- as many links as branches in all, and at most as many at every block
  have hequal := forall₂_eq_of_sum_eq (forall₂_blocks h) hlinks (by omega)
  intro tree htree subtree hsubtree
  have hmem : subtree ∈ forest.flatMap BlockTree.subtrees :=
    mem_flatMap.2 ⟨tree, htree, hsubtree⟩
  obtain ⟨block, -, ⟨parent, rfl⟩, hlength⟩ := exists_left_of_forall₂ hequal hmem
  have hnone := (hbareSubtree subtree hmem).branches_eq
  have hfull : (subtree.label.hangAll subtree.children).branches.length =
      subtree.label.branches.length + subtree.children.length := by
    rw [hnone]
    simpa using hlength
  have hperm := Block.branches_hangAll_perm hfull
  rwa [hnone, append_nil] at hperm

/-- Reading a workspace from its roots gives back the trees whose blocks it lists. -/
theorem map_treeAt_roots (hcomplete : ∀ tree ∈ forest, Complete tree) :
    (w.roots.map (fun root => w.treeAt root.id)).Perm
      (forest.map (fun tree => some (tree.map Block.label).sorted)) := by
  have htree : ∀ tree ∈ forest,
      w.treeAt tree.label.id = some (tree.map Block.label).sorted := by
    intro tree htree
    have hholds : w.Holds tree := fun subtree hsubtree =>
      exists_block_of_mem_subtrees h (mem_flatMap.2 ⟨tree, htree, hsubtree⟩)
    have hdepth : tree.subtrees.length ≤ w.size := by
      unfold size
      rw [(forall₂_blocks h).length_eq]
      exact (sublist_flatten_of_mem (mem_map_of_mem htree)).length_le
    exact treeWithin_eq hholds (hcomplete tree htree) hdepth
  refine ((roots_perm h).map _).trans (List.Perm.of_eq ?_)
  rw [map_map]
  refine map_congr_left (fun tree hmem => ?_)
  simpa using htree tree hmem

theorem branch?_of_parent (hcomplete : ∀ tree ∈ forest, Complete tree) {block : Block}
    {link : Link} (hblock : block ∈ w.blocks) (hparent : block.parent = some link) :
    ∃ parent, w.get? link.parent = some parent ∧ parent.branch? link.position = some block.id := by
  rw [h] at hblock
  obtain ⟨tree, htree, hmem⟩ := mem_flatMap.1 hblock
  rcases parent_of_mem_linked hmem with
    ⟨hnone, -⟩ | ⟨subtree, hsubtree, branch, hbranch, hlink, hid⟩
  · rw [hparent] at hnone
    cases hnone
  · rw [hparent] at hlink
    cases hlink
    obtain ⟨parent, hget, upper, rfl⟩ :=
      exists_block_of_mem_subtrees h (mem_flatMap.2 ⟨tree, htree, hsubtree⟩)
    refine ⟨_, by simpa using hget, ?_⟩
    have hchild : (branch.1, branch.2.label.id) ∈ subtree.children := mem_map_of_mem hbranch
    have hhung := (hcomplete tree htree subtree hsubtree).mem_iff.2 hchild
    rw [hid, Position.position_link]
    exact Block.mem_branches_iff.1 hhung

end

end Workspace

end RobotBlocks
