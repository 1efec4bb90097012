import RobotBlocks.Proofs.Workspace.Links
import RobotBlocks.Proofs.Workspace.Walk

/-!
# Lost branches

A block keeps one link for each position. If a tree has several branches at one position of a node,
the last one takes the place of the others (`overwritten`): these still hang at the node, but the node
does not hold them any more, so no way leads to them or to what is below them.

In a workspace that lists the linked blocks of some trees, these are the only blocks that are not
reached (`not_reached_iff`), and the check finds nothing else wrong (`validate_cases_of_lists`).
-/

set_option autoImplicit false

namespace RobotBlocks

open List BlockTree Block

/-! ## Trees -/

variable {block : Block}
variable {branch : Position × BlockTree Block}

namespace BlockTree

variable {α β : Type}
variable {tree : BlockTree α}

/-- The branches whose place a later branch at the same position takes. -/
def overwritten : Branches α → List (BlockTree α)
  | [] => []
  | (position, tree) :: rest =>
    if position ∈ rest.map Prod.fst then tree :: overwritten rest else overwritten rest

/-- The labels of the overwritten branches of all nodes, with all that is below them. -/
def lost (tree : BlockTree α) : List α :=
  tree.subtrees.flatMap (fun subtree => (overwritten subtree.branches).flatMap labels)

variable {branches : Branches α}

theorem overwritten_eq_nil_iff : overwritten branches = [] ↔ (branches.map Prod.fst).Nodup := by
  induction branches with
  | nil => simp [overwritten]
  | cons branch rest ih =>
    obtain ⟨position, tree⟩ := branch
    rw [overwritten, map_cons, nodup_cons, ← ih]
    split <;> simp_all

theorem exists_position_of_mem_overwritten (h : tree ∈ overwritten branches) :
    ∃ position, (position, tree) ∈ branches := by
  induction branches with
  | nil => cases h
  | cons branch rest ih =>
    obtain ⟨position, first⟩ := branch
    have hcases : tree = first ∨ tree ∈ overwritten rest := by
      rw [overwritten] at h
      split at h
      · exact mem_cons.1 h
      · exact .inr h
    rcases hcases with rfl | hrest
    · exact ⟨position, mem_cons_self⟩
    · obtain ⟨other, hmem⟩ := ih hrest
      exact ⟨other, mem_cons_of_mem _ hmem⟩

theorem overwritten_map (f : α → β) (branches : Branches α) :
    overwritten (branches.map (fun branch => (branch.1, branch.2.map f))) =
      (overwritten branches).map (map f) := by
  induction branches with
  | nil => rfl
  | cons branch rest ih =>
    obtain ⟨position, tree⟩ := branch
    have hpositions : (rest.map (fun branch => (branch.1, branch.2.map f))).map Prod.fst =
        rest.map Prod.fst := by
      rw [map_map]
      rfl
    rw [map_cons, overwritten, overwritten, hpositions, ih]
    split <;> rfl

theorem labels_map (f : α → β) (tree : BlockTree α) : (tree.map f).labels = tree.labels.map f := by
  unfold labels
  rw [subtrees_map, map_map, map_map]
  refine map_congr_left fun subtree _ => ?_
  cases subtree
  simp

theorem lost_map (f : α → β) (tree : BlockTree α) : (tree.map f).lost = tree.lost.map f := by
  unfold lost
  rw [subtrees_map, flatMap_map, map_flatMap]
  refine flatMap_congr fun subtree _ => ?_
  obtain ⟨label, branches⟩ := subtree
  rw [map_node, branches_node, branches_node, overwritten_map, flatMap_map, map_flatMap]
  exact flatMap_congr fun branch _ => labels_map f branch

theorem lost_eq_nil_iff :
    tree.lost = [] ↔ ∀ subtree ∈ tree.subtrees, (subtree.branches.map Prod.fst).Nodup := by
  unfold lost
  rw [flatMap_eq_nil_iff]
  refine forall₂_congr fun subtree _ => ?_
  rw [← overwritten_eq_nil_iff, flatMap_eq_nil_iff]
  constructor
  · intro h
    rw [eq_nil_iff_forall_not_mem]
    intro branch hbranch
    have hempty := h branch hbranch
    cases branch
    simp [labels] at hempty
  · intro h
    simp [h]

theorem mem_lost_of_branch {branch : Position × BlockTree α} {label : α}
    (hbranch : branch ∈ tree.branches) (h : label ∈ branch.2.lost) : label ∈ tree.lost := by
  obtain ⟨subtree, hsubtree, hlabel⟩ := mem_flatMap.1 h
  exact mem_flatMap.2 ⟨subtree, (subtrees_sublist_of_branch hbranch).subset hsubtree, hlabel⟩

/-- A branch hangs with its blocks in the tree. -/
theorem mem_linked_of_branch {tree subtree : BlockTree Block} {parent : Option Link}
    (hsubtree : subtree ∈ tree.subtrees) (hbranch : branch ∈ subtree.branches)
    (hblock : block ∈ branch.2.linked (some (branch.1.link subtree.label.id))) :
    block ∈ tree.linked parent := by
  induction tree using ind generalizing parent with
  | node label branches ih =>
    rw [linked_node]
    rw [subtrees_node, mem_cons, mem_flatMap] at hsubtree
    apply mem_cons_of_mem
    rcases hsubtree with rfl | ⟨below, hbelow, hmem⟩
    · exact mem_flatMap.2 ⟨branch, hbranch, hblock⟩
    · obtain ⟨other, hother, rfl⟩ := mem_map.1 hbelow
      exact mem_flatMap.2 ⟨other, hother, ih other hother hmem⟩

theorem subtrees_sublist {tree subtree : BlockTree α} (h : subtree ∈ tree.subtrees) :
    subtree.subtrees.Sublist tree.subtrees := by
  induction tree using ind with
  | node label branches ih =>
    rw [subtrees_node, mem_cons, mem_flatMap] at h
    rcases h with rfl | ⟨below, hbelow, hmem⟩
    · exact List.Sublist.refl _
    · obtain ⟨branch, hbranch, rfl⟩ := mem_map.1 hbelow
      exact (ih branch hbranch hmem).trans (subtrees_sublist_of_branch hbranch)

/-- The trees that hang below a node come among its subtrees in their order. -/
theorem branches_sublist (tree : BlockTree α) :
    (tree.branches.map Prod.snd).Sublist tree.subtrees := by
  obtain ⟨label, branches⟩ := tree
  have heach : ∀ tree ∈ branches.map Prod.snd, [tree].Sublist tree.subtrees :=
    fun tree _ => singleton_sublist.2 tree.self_mem_subtrees
  have hall := List.Sublist.flatMap_right _ heach
  rw [flatMap_singleton'] at hall
  rw [subtrees_node]
  exact hall.cons _

theorem root_mem_linked (tree : BlockTree Block) (parent : Option Link) :
    (tree.label.hangAll tree.children).hungAt parent ∈ tree.linked parent := by
  obtain ⟨label, branches⟩ := tree
  rw [linked_node]
  exact mem_cons_self

theorem exists_mem_linked {tree : BlockTree Block} {label : Block} (h : label ∈ tree.labels)
    (parent : Option Link) : ∃ block ∈ tree.linked parent, block.id = label.id := by
  obtain ⟨subtree, hsubtree, rfl⟩ := mem_map.1 h
  obtain ⟨block, hblock, link, rfl⟩ :=
    exists_left_of_forall₂ (forall₂_linked parent tree) hsubtree
  exact ⟨_, hblock, by simp⟩

end BlockTree

/-! ## What a block holds in the end -/

namespace Block

theorem nodup_branches (block : Block) : block.branches.Nodup := by
  have hentries : ∀ (d : Dict String) (toPosition : String → Position),
      Function.Injective toPosition →
        (d.entries.map (fun entry => (toPosition entry.1, entry.2))).Nodup := by
    intro d toPosition hinjective
    rw [List.Nodup, pairwise_map]
    refine d.increasing.imp fun {a b} hlt hsame => ?_
    have hname : a.1 = b.1 := hinjective (congrArg Prod.fst hsame)
    rw [hname] at hlt
    exact String.lt_irrefl _ hlt
  have hvalues := hentries block.values .value fun _ _ h => Position.value.inj h
  have hstatements := hentries block.statements .statement fun _ _ h => Position.statement.inj h
  have hnext : (block.next.toList.map (fun id => (Position.next, id))).Nodup := by
    cases block.next <;> simp
  unfold branches
  refine nodup_append.2 ⟨nodup_append.2 ⟨hvalues, hstatements, ?_⟩, hnext, ?_⟩
  · intro a ha b hb hab
    obtain ⟨_, -, rfl⟩ := mem_map.1 ha
    obtain ⟨_, -, rfl⟩ := mem_map.1 hb
    cases congrArg Prod.fst hab
  · intro a ha b hb hab
    obtain ⟨_, -, rfl⟩ := mem_map.1 hb
    rcases mem_append.1 ha with ha | ha <;> obtain ⟨_, -, rfl⟩ := mem_map.1 ha <;>
      cases congrArg Prod.fst hab

theorem hangAll_cons (block : Block) (child : Position × String) (rest : List (Position × String)) :
    block.hangAll (child :: rest) = (block.hang child.1 child.2).hangAll rest := rfl

/-- At a position where blocks are hung the block then holds one of them. -/
theorem branch?_hangAll_cases (block : Block) (children : List (Position × String))
    (position : Position) :
    (position ∉ children.map Prod.fst ∧
        (block.hangAll children).branch? position = block.branch? position) ∨
      ∃ id, (position, id) ∈ children ∧ (block.hangAll children).branch? position = some id := by
  induction children generalizing block with
  | nil => exact .inl ⟨by simp, rfl⟩
  | cons child rest ih =>
    obtain ⟨other, id⟩ := child
    rw [hangAll_cons]
    rcases ih (block.hang other id) with ⟨hnot, hsame⟩ | ⟨later, hlater, hheld⟩
    · rw [branch?_hang] at hsame
      by_cases hposition : position = other
      · subst hposition
        rw [if_pos rfl] at hsame
        exact .inr ⟨id, mem_cons_self, hsame⟩
      · rw [if_neg hposition] at hsame
        exact .inl ⟨by simp [hposition, hnot], hsame⟩
    · exact .inr ⟨later, mem_cons_of_mem _ hlater, hheld⟩

variable {branches : Branches Block}

/-- A branch that is not overwritten is held. -/
theorem branch?_hangAll_of_kept (block : Block) {position : Position} {tree : BlockTree Block}
    (hmem : (position, tree) ∈ branches) (hkept : tree ∉ BlockTree.overwritten branches) :
    (block.hangAll (branches.map (fun branch => (branch.1, branch.2.label.id)))).branch? position =
      some tree.label.id := by
  induction branches generalizing block with
  | nil => cases hmem
  | cons branch rest ih =>
    obtain ⟨other, first⟩ := branch
    rw [BlockTree.overwritten] at hkept
    rw [map_cons, hangAll_cons]
    rcases mem_cons.1 hmem with hfirst | hrest
    · cases hfirst
      have hlast : position ∉ rest.map Prod.fst := by
        intro hlater
        rw [if_pos hlater] at hkept
        exact hkept mem_cons_self
      rcases branch?_hangAll_cases (block.hang position tree.label.id)
          (rest.map (fun branch => (branch.1, branch.2.label.id))) position with
        ⟨-, hsame⟩ | ⟨id, hid, -⟩
      · rw [hsame, branch?_hang, if_pos rfl]
      · obtain ⟨later, hlater, hpair⟩ := mem_map.1 hid
        have hposition : later.1 = position := congrArg Prod.fst hpair
        exact absurd (mem_map.2 ⟨later, hlater, hposition⟩) hlast
    · refine ih _ hrest fun hrestKept => hkept ?_
      split
      · exact mem_cons_of_mem _ hrestKept
      · exact hrestKept

/-- An overwritten branch is not held where it was hung. -/
theorem exists_branch?_hangAll_ne (block : Block) {tree : BlockTree Block}
    (hids : (branches.map (fun branch => branch.2.label.id)).Nodup)
    (h : tree ∈ BlockTree.overwritten branches) :
    ∃ position, (position, tree) ∈ branches ∧
      (block.hangAll (branches.map (fun branch => (branch.1, branch.2.label.id)))).branch? position ≠
        some tree.label.id := by
  induction branches generalizing block with
  | nil => cases h
  | cons branch rest ih =>
    obtain ⟨position, first⟩ := branch
    rw [map_cons, nodup_cons] at hids
    have hcases : (tree = first ∧ position ∈ rest.map Prod.fst) ∨
        tree ∈ BlockTree.overwritten rest := by
      rw [BlockTree.overwritten] at h
      split at h
      · exact (mem_cons.1 h).imp_left fun hfirst => ⟨hfirst, ‹_›⟩
      · exact .inr h
    rw [map_cons, hangAll_cons]
    rcases hcases with ⟨rfl, hlater⟩ | hrest
    · refine ⟨position, mem_cons_self, ?_⟩
      -- a later branch is held, and its root is another block
      rcases branch?_hangAll_cases (block.hang position tree.label.id)
          (rest.map (fun branch => (branch.1, branch.2.label.id))) position with
        ⟨hnot, -⟩ | ⟨id, hid, hheld⟩
      · rw [map_map] at hnot
        exact absurd hlater hnot
      · rw [hheld]
        rintro heq
        cases heq
        obtain ⟨later, hmem, hpair⟩ := mem_map.1 hid
        exact hids.1 (mem_map.2 ⟨later, hmem, congrArg Prod.snd hpair⟩)
    · obtain ⟨other, hmem, hne⟩ := ih (block.hang position first.label.id) hids.2 hrest
      exact ⟨other, mem_cons_of_mem _ hmem, hne⟩

end Block

/-! ## Consistent workspaces -/

namespace Workspace

namespace Consistent

variable {w : Workspace}

theorem known (h : w.Consistent) : ∀ id ∈ w.targets, ∃ block ∈ w.blocks, block.id = id := by
  intro id hid
  obtain ⟨_, holder, hholder, rfl, position, hheld⟩ := mem_targets_iff.1 hid
  obtain ⟨block, hget, -⟩ := h holder.id holder (get?_of_mem hholder) position id hheld
  exact ⟨block, mem_of_find?_eq_some hget, id_of_get? hget⟩

/-- In a consistent workspace no two links lead to one block. -/
theorem nodup_targets (h : w.Consistent) : w.targets.Nodup := by
  have hheld : ∀ {block : Block} {branch : Position × String}, block ∈ w.blocks →
      branch ∈ block.branches → w.get? block.id = some block ∧
        block.branch? branch.1 = some branch.2 :=
    fun hblock hbranch => ⟨get?_of_mem hblock, mem_branches_iff.1 hbranch⟩
  refine nodup_flatMap.2 ⟨fun block hblock => ?_, ?_⟩
  · refine block.nodup_branches.map_on ?_
    intro branch hbranch branch' hbranch' hsame
    obtain ⟨hget, hfirst⟩ := hheld hblock hbranch
    obtain ⟨-, hsecond⟩ := hheld hblock hbranch'
    rw [hsame] at hfirst
    exact Prod.ext (h.held_once hget hfirst hget hsecond).2 hsame
  · have hblocks : w.blocks.Nodup := w.distinct.of_map
    refine hblocks.imp_of_mem ?_
    intro block block' hblock hblock' hne id hid hid'
    obtain ⟨branch, hbranch, rfl⟩ := mem_map.1 hid
    obtain ⟨branch', hbranch', hsame⟩ := mem_map.1 hid'
    obtain ⟨hget, hfirst⟩ := hheld hblock hbranch
    obtain ⟨hget', hsecond⟩ := hheld hblock' hbranch'
    rw [hsame] at hsecond
    have hids := (h.held_once hget hfirst hget' hsecond).1
    exact hne (eq_of_id_eq hblock hblock' hids)

theorem nodup (h : w.Consistent) : (w.roots.map Block.id ++ w.targets).Nodup := by
  refine nodup_append.2 ⟨w.nodup_ids_roots, h.nodup_targets, ?_⟩
  rintro id hid target htarget rfl
  obtain ⟨root, hroot, rfl⟩ := mem_map.1 hid
  obtain ⟨hmem, hparent⟩ := mem_roots_iff.1 hroot
  obtain ⟨_, holder, hholder, rfl, position, hheld⟩ := mem_targets_iff.1 htarget
  obtain ⟨block, hget, hlink⟩ := h holder.id holder (get?_of_mem hholder) position _ hheld
  rw [get?_of_mem hmem, Option.some.injEq] at hget
  subst hget
  rw [hparent] at hlink
  cases hlink

end Consistent

/-! ## Workspaces that list trees -/

section

variable {w : Workspace} {forest : List (BlockTree Block)} (hlists : w.Lists forest)
variable {subtree : BlockTree Block}
    (hbare : ∀ subtree ∈ forest.flatMap BlockTree.subtrees, subtree.label.Bare)

include hlists

theorem ids_eq_of_lists :
    w.blocks.map Block.id =
      (forest.flatMap BlockTree.subtrees).map (fun subtree => subtree.label.id) := by
  have hids : ∀ {blocks : List Block} {subtrees : List (BlockTree Block)},
      List.Forall₂ BlockTree.IsLinked blocks subtrees →
        blocks.map Block.id = subtrees.map (fun subtree => subtree.label.id) := by
    intro blocks subtrees h
    induction h with
    | nil => rfl
    | cons hlinked _ ih =>
      obtain ⟨parent, rfl⟩ := hlinked
      rw [map_cons, map_cons, ih]
      simp
  exact hids (forall₂_blocks hlists)

section

variable (hsubtree : subtree ∈ forest.flatMap BlockTree.subtrees)

include hsubtree

theorem mem_blocks_of_branch (hbranch : branch ∈ subtree.branches)
    (hblock : block ∈ branch.2.linked (some (branch.1.link subtree.label.id))) :
    block ∈ w.blocks := by
  obtain ⟨tree, htree, hmem⟩ := mem_flatMap.1 hsubtree
  rw [hlists]
  exact mem_flatMap.2 ⟨tree, htree, mem_linked_of_branch hmem hbranch hblock⟩

theorem nodup_ids_branches : (subtree.branches.map (fun branch => branch.2.label.id)).Nodup := by
  have hids := w.distinct
  rw [ids_eq_of_lists hlists] at hids
  obtain ⟨tree, htree, hmem⟩ := mem_flatMap.1 hsubtree
  have hsublist : (subtree.branches.map Prod.snd).Sublist (forest.flatMap BlockTree.subtrees) :=
    subtree.branches_sublist.trans ((subtrees_sublist hmem).trans
      (sublist_flatten_of_mem (mem_map_of_mem htree)))
  have hnodup := hids.sublist (hsublist.map (fun subtree => subtree.label.id))
  rwa [map_map] at hnodup

theorem eq_of_linked (hblock : block ∈ w.blocks) (hid : block.id = subtree.label.id) :
    BlockTree.IsLinked block subtree := by
  obtain ⟨found, hget, hlinked⟩ := exists_block_of_mem_subtrees hlists hsubtree
  rw [← hid, get?_of_mem hblock, Option.some.injEq] at hget
  rwa [hget]

end

/-- A block is reached if it is not lost: what is above it holds it. -/
theorem reached_of_not_lost {label : Block} (tree : BlockTree Block)
    (htree : ∀ subtree ∈ tree.subtrees, subtree ∈ forest.flatMap BlockTree.subtrees)
    (hroot : w.Reached tree.label.id) (hlabel : label ∈ tree.labels) (hkept : label ∉ tree.lost) :
    w.Reached label.id := by
  induction tree using BlockTree.ind with
  | node root branches ih =>
    rw [labels_node, mem_cons, mem_flatMap] at hlabel
    rcases hlabel with rfl | ⟨branch, hbranch, hmem⟩
    · exact hroot
    · have hbelow : branch.2.subtrees ⊆ (BlockTree.node root branches).subtrees :=
        (subtrees_sublist_of_branch hbranch).subset
      refine ih branch hbranch (fun subtree hsubtree => htree subtree (hbelow hsubtree)) ?_
        hmem (fun hlost => hkept (mem_lost_of_branch hbranch hlost))
      have hheld : branch.2 ∉ BlockTree.overwritten branches := by
        intro hover
        refine hkept (mem_flatMap.2 ⟨_, self_mem_subtrees _, ?_⟩)
        exact mem_flatMap.2 ⟨branch.2, hover, hmem⟩
      obtain ⟨block, hget, link, rfl⟩ :=
        exists_block_of_mem_subtrees hlists (htree _ (self_mem_subtrees _))
      refine hroot.step ⟨_, mem_of_find?_eq_some hget, by simp, branch.1, ?_⟩
      rw [branch?_hungAt]
      exact branch?_hangAll_of_kept root hbranch hheld

include hbare

theorem consistent_of_lists : w.Consistent := by
  intro id parent hget position child hheld
  have hparent : parent ∈ w.blocks := mem_of_find?_eq_some hget
  have hid : parent.id ∈ w.blocks.map Block.id := mem_map_of_mem hparent
  rw [ids_eq_of_lists hlists] at hid
  obtain ⟨subtree, hsubtree, hlabel⟩ := mem_map.1 hid
  obtain ⟨link, rfl⟩ := eq_of_linked hlists hsubtree hparent hlabel.symm
  rw [branch?_hungAt] at hheld
  rcases branch?_hangAll_cases subtree.label subtree.children position with
    ⟨-, hsame⟩ | ⟨held, hmem, hsome⟩
  · rw [hheld, (hbare subtree hsubtree).branch?_eq_none] at hsame
    cases hsame
  · rw [hheld] at hsome
    cases hsome
    obtain ⟨branch, hbranch, hpair⟩ := mem_map.1 hmem
    cases hpair
    have hroot := mem_blocks_of_branch hlists hsubtree hbranch (branch.2.root_mem_linked _)
    have hfound := get?_of_mem hroot
    rw [id_hungAt, id_hangAll] at hfound
    refine ⟨_, hfound, ?_⟩
    rw [parent_hungAt, hlabel, id_of_get? hget]

/-- No way leads to an overwritten branch: it would have to enter at the root of the branch, which
hangs where another block is held. -/
theorem not_reached_of_overwritten {subtree tree : BlockTree Block}
    (hsubtree : subtree ∈ forest.flatMap BlockTree.subtrees)
    (htree : tree ∈ BlockTree.overwritten subtree.branches) {id : String}
    (hid : id ∈ tree.labels.map Block.id) : ¬ w.Reached id := by
  obtain ⟨position, hbranch, hne⟩ :=
    exists_branch?_hangAll_ne subtree.label (nodup_ids_branches hlists hsubtree) htree
  have hconsistent := consistent_of_lists hlists hbare
  -- where the blocks of the branch hang
  have hhangs : ∀ {block : Block}, block ∈ w.blocks → block.id ∈ tree.labels.map Block.id →
      ∃ link, block.parent = some link ∧
        ((link = position.link subtree.label.id ∧ block.id = tree.label.id) ∨
          link.parent ∈ tree.labels.map Block.id) := by
    intro block hblock hmem
    obtain ⟨label, hlabel, hlabelId⟩ := mem_map.1 hmem
    obtain ⟨linked, hlinked, hlinkedId⟩ :=
      exists_mem_linked hlabel (some (position.link subtree.label.id))
    have hin := mem_blocks_of_branch hlists hsubtree hbranch hlinked
    obtain rfl : linked = block := eq_of_id_eq hin hblock (hlinkedId.trans hlabelId)
    rcases parent_of_mem_linked hlinked with
      ⟨hparent, hroot⟩ | ⟨below, hbelow, branch, -, hparent, -⟩
    · exact ⟨_, hparent, .inl ⟨rfl, hroot⟩⟩
    · refine ⟨_, hparent, .inr ?_⟩
      rw [Position.parent_link]
      exact mem_map_of_mem (mem_map_of_mem hbelow)
  rintro ⟨root, hroot, hparent, hpath⟩
  induction hpath with
  | refl =>
    obtain ⟨link, hlink, -⟩ := hhangs hroot hid
    rw [hparent] at hlink
    cases hlink
  | @tail above child _ hlink ih =>
    obtain ⟨holder, hholder, rfl, other, hheld⟩ := hlink
    obtain ⟨block, hget, hup⟩ := hconsistent _ holder (get?_of_mem hholder) other child hheld
    obtain rfl := id_of_get? hget
    obtain ⟨link, hparent', hcases⟩ := hhangs (mem_of_find?_eq_some hget) hid
    rw [hup, Option.some.injEq] at hparent'
    subst hparent'
    rcases hcases with ⟨hsame, hblockId⟩ | habove
    · have hholderId : holder.id = subtree.label.id := by
        simpa using congrArg Link.parent hsame
      obtain rfl : other = position := by simpa using congrArg Link.position hsame
      obtain ⟨up, rfl⟩ := eq_of_linked hlists hsubtree hholder hholderId
      rw [branch?_hungAt, hblockId] at hheld
      exact hne hheld
    · rw [Position.parent_link] at habove
      exact ih habove

/-- The blocks that are not reached are those of the lost branches. -/
theorem not_reached_iff {id : String} :
    (id ∈ w.blocks.map Block.id ∧ ¬ w.Reached id) ↔
      id ∈ (forest.flatMap BlockTree.lost).map Block.id := by
  constructor
  · rintro ⟨hid, hnot⟩
    rw [ids_eq_of_lists hlists] at hid
    obtain ⟨subtree, hsubtree, rfl⟩ := mem_map.1 hid
    obtain ⟨tree, htree, hmem⟩ := mem_flatMap.1 hsubtree
    by_contra hkept
    refine hnot (reached_of_not_lost hlists tree ?_ ?_ (mem_map_of_mem hmem) ?_)
    · exact fun other hother => mem_flatMap.2 ⟨tree, htree, hother⟩
    · have hroot : (tree.label.hangAll tree.children).hungAt none ∈ w.roots :=
        (roots_perm hlists).mem_iff.2 (mem_map_of_mem htree)
      simpa using reached_of_mem_roots hroot
    · intro hlost
      exact hkept (mem_map_of_mem (mem_flatMap.2 ⟨tree, htree, hlost⟩))
  · intro hid
    obtain ⟨label, hlabel, rfl⟩ := mem_map.1 hid
    obtain ⟨tree, htree, hlost⟩ := mem_flatMap.1 hlabel
    obtain ⟨subtree, hmem, hbelow⟩ := mem_flatMap.1 hlost
    obtain ⟨branch, hbranch, hlabelBranch⟩ := mem_flatMap.1 hbelow
    have hsubtree : subtree ∈ forest.flatMap BlockTree.subtrees :=
      mem_flatMap.2 ⟨tree, htree, hmem⟩
    refine ⟨?_, not_reached_of_overwritten hlists hbare hsubtree hbranch
      (mem_map_of_mem hlabelBranch)⟩
    obtain ⟨position, hposition⟩ := exists_position_of_mem_overwritten hbranch
    obtain ⟨block, hblock, hid⟩ :=
      exists_mem_linked hlabelBranch (some (position.link subtree.label.id))
    exact mem_map.2 ⟨block, mem_blocks_of_branch hlists hsubtree hposition hblock, hid⟩

/-- The check of a workspace that lists trees finds the lost blocks, and nothing else. -/
theorem validate_cases_of_lists :
    (w.validate = .ok () ∧ forest.flatMap BlockTree.lost = []) ∨
      ∃ ids, w.validate = .error (.unreachable ids) ∧ forest.flatMap BlockTree.lost ≠ [] ∧
        ids.Pairwise (· < ·) ∧
        ∀ id, id ∈ ids ↔ id ∈ (forest.flatMap BlockTree.lost).map Block.id := by
  have hconsistent := consistent_of_lists hlists hbare
  rcases validate_cases_of_nodup hconsistent.known hconsistent.nodup with
    ⟨hvalid, hreached⟩ | ⟨ids, hfault, hne, hsorted, hids⟩
  · refine .inl ⟨hvalid, eq_nil_iff_forall_not_mem.2 fun label hlabel => ?_⟩
    obtain ⟨hmem, hnot⟩ := (not_reached_iff hlists hbare).2 (mem_map_of_mem hlabel)
    obtain ⟨block, hblock, hid⟩ := mem_map.1 hmem
    rw [← hid] at hnot
    exact hnot (hreached block hblock)
  · have hlost : ∀ id, id ∈ ids ↔ id ∈ (forest.flatMap BlockTree.lost).map Block.id :=
      fun id => (hids id).trans (not_reached_iff hlists hbare)
    refine .inr ⟨ids, hfault, ?_, hsorted, hlost⟩
    intro hnil
    obtain ⟨id, hid⟩ := exists_mem_of_ne_nil ids hne
    rw [hlost, hnil] at hid
    cases hid

end

end Workspace

end RobotBlocks
