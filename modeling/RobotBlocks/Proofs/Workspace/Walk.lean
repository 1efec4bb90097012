import Mathlib.Data.Fintype.Card
import Mathlib.Data.List.Flatten
import Mathlib.Data.List.Pairwise
import Mathlib.Data.List.Perm.Subperm
import Mathlib.Logic.Relation
import Mathlib.Data.Set.Finite.Basic
import RobotBlocks.Proofs.Workspace.Level
import RobotBlocks.Proofs.Workspace.Order

/-!
# The check of a workspace is exact

The check goes down from the roots with a list of blocks that are still to visit, and stops at the
first thing that is wrong. The links of the workspace may be anything: they may lead in a circle, to
one block twice, or nowhere.

`Walks` says how a walk ends, without a bound on its steps. The walk of the check is such a walk
(`walks_visit`): it visits no block twice, so the bound on its steps is never met. If no block is named
twice among the roots and the ends of links together, the walk goes well and comes to the blocks that
are reached from a root (`exists_visitAll_of_nodup`, `mem_iff_reached`). For that, the visited and the
pending blocks are counted together: they are at any time the roots and the ends of the links of the
visited blocks (`Accounted`).

Therefore the check accepts the workspaces whose links form a forest over all blocks, with the blocks
that have no parent as its roots, and no others (`validate_eq_ok_iff_forest`).
-/

set_option autoImplicit false

namespace RobotBlocks

open List

/-! ## Links -/

variable {block : Block} {id : String}

namespace Block

theorem below_perm (block : Block) : block.below.Perm (block.branches.map Prod.snd) := by
  have hbranches : block.branches.map Prod.snd =
      block.values.values ++ (block.statements.values ++ block.next.toList) := by
    simp [branches, Dict.values, Function.comp_def]
  rw [hbranches]
  have hvalues := reverse_perm block.values.values
  have hstatements := reverse_perm block.statements.values
  unfold below
  refine perm_append_comm.trans (hvalues.append ?_)
  exact perm_append_comm.trans (hstatements.append_right _)

theorem mem_below_iff : id ∈ block.below ↔ ∃ position, block.branch? position = some id := by
  rw [block.below_perm.mem_iff, mem_map]
  constructor
  · rintro ⟨⟨position, child⟩, hbranch, rfl⟩
    exact ⟨position, mem_branches_iff.1 hbranch⟩
  · rintro ⟨position, hbranch⟩
    exact ⟨(position, id), mem_branches_iff.2 hbranch, rfl⟩

end Block

namespace Workspace

variable {w : Workspace}

/-- What the links of all blocks lead to, once for every link. -/
def targets (w : Workspace) : List String :=
  w.blocks.flatMap (fun block => block.branches.map Prod.snd)

/-- A block has a link to another one, or to an identity that no block has. -/
def LinksTo (w : Workspace) (id child : String) : Prop :=
  ∃ block ∈ w.blocks, block.id = id ∧ ∃ position, block.branch? position = some child

/-- Links lead to a block from one that has no parent. -/
def Reached (w : Workspace) (id : String) : Prop :=
  ∃ root ∈ w.blocks, root.parent = none ∧ Relation.ReflTransGen w.LinksTo root.id id

theorem targets_perm (w : Workspace) : w.targets.Perm (w.blocks.flatMap Block.below) :=
  List.Perm.flatMap_left _ fun block _ => block.below_perm.symm

variable {child : String}

theorem mem_targets_iff : child ∈ w.targets ↔ ∃ id, w.LinksTo id child := by
  rw [w.targets_perm.mem_iff, mem_flatMap]
  constructor
  · rintro ⟨block, hblock, hchild⟩
    exact ⟨block.id, block, hblock, rfl, Block.mem_below_iff.1 hchild⟩
  · rintro ⟨id, block, hblock, -, hchild⟩
    exact ⟨block, hblock, Block.mem_below_iff.2 hchild⟩

theorem linksTo_of_below (hblock : block ∈ w.blocks) (hchild : child ∈ block.below) :
    w.LinksTo block.id child :=
  ⟨block, hblock, rfl, Block.mem_below_iff.1 hchild⟩

theorem Reached.step (h : w.Reached id) (hlink : w.LinksTo id child) : w.Reached child := by
  obtain ⟨root, hroot, hparent, hpath⟩ := h
  exact ⟨root, hroot, hparent, hpath.tail hlink⟩

theorem mem_roots_iff : block ∈ w.roots ↔ block ∈ w.blocks ∧ block.parent = none := by
  simp [roots]

theorem reached_of_mem_roots {root : Block} (h : root ∈ w.roots) : w.Reached root.id := by
  obtain ⟨hmem, hparent⟩ := mem_roots_iff.1 h
  exact ⟨root, hmem, hparent, .refl⟩

theorem nodup_ids_roots (w : Workspace) : (w.roots.map Block.id).Nodup := by
  have hperm : (w.roots.map Block.id).Perm
      ((w.blocks.filter (fun block => block.parent.isNone)).map Block.id) :=
    (mergeSort_perm _ _).map _
  rw [hperm.nodup_iff]
  exact w.distinct.sublist (filter_sublist.map _)

/-! ## Walks without a bound -/

/-- How a walk ends that goes on from the blocks visited so far to the pending ones. -/
inductive Walks (w : Workspace) : (seen pending : List String) → Except Fault (List String) → Prop
  | done (seen : List String) : Walks w seen [] (.ok seen)
  | again {seen pending : List String} {id : String} :
      id ∈ seen → Walks w seen (id :: pending) (.error (.reachableTwice id))
  | unknown {seen pending : List String} {id : String} :
      id ∉ seen → w.get? id = none → Walks w seen (id :: pending) (.error (.unknownBlock id))
  | visit {seen pending : List String} {id : String} {block : Block}
      {outcome : Except Fault (List String)} :
      id ∉ seen → w.get? id = some block → Walks w (id :: seen) (block.below ++ pending) outcome →
      Walks w seen (id :: pending) outcome

/-- How the walks down from some roots end, one after the other. -/
inductive WalksAll (w : Workspace) : (seen : List String) → List Block →
    Except Fault (List String) → Prop
  | done (seen : List String) : WalksAll w seen [] (.ok seen)
  | fault {seen : List String} {root : Block} {rest : List Block} {fault : Fault} :
      Walks w seen [root.id] (.error fault) → WalksAll w seen (root :: rest) (.error fault)
  | next {seen between : List String} {root : Block} {rest : List Block}
      {outcome : Except Fault (List String)} :
      Walks w seen [root.id] (.ok between) → WalksAll w between rest outcome →
      WalksAll w seen (root :: rest) outcome

variable {seen pending : List String}

/-- The bound on the steps of a walk is not met: every step visits another block. -/
theorem walks_visit {steps : Nat} (hnodup : seen.Nodup) (hseen : seen ⊆ w.blocks.map Block.id)
    (hsteps : w.size < steps + seen.length) :
    w.Walks seen pending (w.visit steps seen pending) := by
  induction steps generalizing seen pending with
  | zero =>
    have hlength : seen.length ≤ (w.blocks.map Block.id).length :=
      (subperm_of_subset hnodup hseen).length_le
    rw [length_map] at hlength
    unfold size at hsteps
    omega
  | succ steps ih =>
    cases pending with
    | nil => exact .done seen
    | cons id rest =>
      unfold visit
      by_cases hid : id ∈ seen
      · rw [if_pos (by simpa using hid)]
        exact .again hid
      · rw [if_neg (by simpa using hid)]
        cases hget : w.get? id with
        | none =>
          have hblock : w.block id = .error (.unknownBlock id) := by
            unfold Workspace.block
            rw [hget]
          rw [hblock]
          exact .unknown hid hget
        | some block =>
          have hblock : w.block id = .ok block := by
            unfold Workspace.block
            rw [hget]
          rw [hblock]
          apply Walks.visit hid hget
          apply ih
          · exact nodup_cons.2 ⟨hid, hnodup⟩
          · intro other hother
            rcases mem_cons.1 hother with rfl | hother
            · obtain ⟨hmem, rfl⟩ := mem_of_block_eq_ok hblock
              exact mem_map_of_mem hmem
            · exact hseen hother
          · rw [length_cons]
            omega

variable {roots : List Block}

theorem walksAll_visitAll (hnodup : seen.Nodup) (hseen : seen ⊆ w.blocks.map Block.id) :
    w.WalksAll seen roots (w.visitAll seen roots) := by
  induction roots generalizing seen with
  | nil => exact .done seen
  | cons root rest ih =>
    have hwalk : w.Walks seen [root.id] (w.visit (w.size + 1) seen [root.id]) :=
      walks_visit hnodup hseen (by omega)
    unfold visitAll
    cases hvisit : w.visit (w.size + 1) seen [root.id] with
    | error fault =>
      rw [hvisit] at hwalk
      exact .fault hwalk
    | ok between =>
      rw [hvisit] at hwalk
      obtain ⟨visited, hbetween, hvisited, -, hkeeps⟩ := visit_eq_ok hvisit
      apply WalksAll.next hwalk
      apply ih (hkeeps hnodup)
      intro id hid
      rw [hbetween, mem_append, mem_reverse] at hid
      rcases hid with hid | hid
      · obtain ⟨block, hblock, rfl⟩ := mem_map.1 hid
        exact mem_map_of_mem (hvisited block hblock)
      · exact hseen hid

/-! ## What a walk comes to -/

variable {outcome : Except Fault (List String)}
variable {seen' : List String}

/-- A walk from reached blocks visits reached blocks only. -/
theorem Walks.reached (h : w.Walks seen pending outcome) (houtcome : outcome = .ok seen')
    (hseen : ∀ id ∈ seen, w.Reached id) (hpending : ∀ id ∈ pending, w.Reached id) :
    ∀ id ∈ seen', w.Reached id := by
  induction h with
  | done seen =>
    cases houtcome
    exact hseen
  | again hid | unknown hid hget => cases houtcome
  | @visit seen pending id block outcome hid hget _ ih =>
    obtain ⟨hreached, hrest⟩ := forall_mem_cons.1 hpending
    refine ih houtcome (forall_mem_cons.2 ⟨hreached, hseen⟩) ?_
    intro child hchild
    rcases mem_append.1 hchild with hbelow | hchild
    · have hlink := linksTo_of_below (mem_of_find?_eq_some hget) hbelow
      rw [id_of_get? hget] at hlink
      exact hreached.step hlink
    · exact hrest child hchild

theorem WalksAll.reached (h : w.WalksAll seen roots outcome) (houtcome : outcome = .ok seen')
    (hseen : ∀ id ∈ seen, w.Reached id) (hroots : ∀ root ∈ roots, w.Reached root.id) :
    ∀ id ∈ seen', w.Reached id := by
  induction h with
  | done seen =>
    cases houtcome
    exact hseen
  | fault hwalk => cases houtcome
  | next hwalk _ ih =>
    obtain ⟨hroot, hrest⟩ := forall_mem_cons.1 hroots
    refine ih houtcome (hwalk.reached rfl hseen ?_) hrest
    intro id hid
    rwa [mem_singleton.1 hid]

/-- A walk from all roots that ends well has come to the blocks that are reached, and to no others. -/
theorem mem_iff_reached (h : w.visitAll [] w.roots = .ok seen) : id ∈ seen ↔ w.Reached id := by
  constructor
  · have hwalk : w.WalksAll [] w.roots (w.visitAll [] w.roots) :=
      walksAll_visitAll nodup_nil (nil_subset _)
    exact hwalk.reached h (by simp) (fun root => reached_of_mem_roots) id
  · rintro ⟨root, hroot, hparent, hpath⟩
    obtain ⟨visited, hseen, -, hids, -⟩ := visitAll_eq_ok h
    have hsettled := settled_visitAll h (w.settled_nil [])
    induction hpath with
    | refl =>
      have hmem : root.id ∈ visited.map Block.id :=
        hids.mem_iff.2 (mem_append_left _
          (mem_map_of_mem (mem_roots_iff.2 ⟨hroot, hparent⟩)))
      simpa [hseen] using hmem
    | tail _ hlink ih =>
      obtain ⟨block, hblock, rfl, hchild⟩ := hlink
      -- what is below a visited block was visited later
      obtain ⟨later, earlier, hsplit⟩ := append_of_mem ih
      obtain ⟨found, hfound, hid, hbelow⟩ := hsettled later block.id earlier hsplit
      obtain rfl : found = block := eq_of_id_eq hfound hblock hid
      have hlater := hbelow _ (Block.mem_below_iff.2 hchild)
      rw [hsplit]
      exact mem_append_left _ (by simpa using hlater)

/-! ## Walks that go well -/

/-- The visited and the pending blocks together are those that the walk started from and what hangs
below the visited ones. -/
def Accounted (w : Workspace) (starts seen pending : List String) : Prop :=
  ∃ visited : List Block, visited.map Block.id = seen ∧ (∀ block ∈ visited, block ∈ w.blocks) ∧
    (seen ++ pending).Perm (starts ++ visited.flatMap Block.below)

namespace Accounted

variable {starts seen pending : List String}

theorem visit (h : w.Accounted starts seen (id :: pending)) (hget : w.get? id = some block) :
    w.Accounted starts (id :: seen) (block.below ++ pending) := by
  obtain ⟨visited, hids, hvisited, hperm⟩ := h
  have hblock : block ∈ w.blocks := mem_of_find?_eq_some hget
  refine ⟨block :: visited, by rw [map_cons, hids, id_of_get? hget], ?_, ?_⟩
  · exact forall_mem_cons.2 ⟨hblock, hvisited⟩
  · calc (id :: seen ++ (block.below ++ pending)).Perm (block.below ++ (id :: seen ++ pending)) :=
          perm_append_comm_assoc _ _ _
      _ |>.Perm (block.below ++ (seen ++ id :: pending)) := perm_middle.symm.append_left _
      _ |>.Perm (block.below ++ (starts ++ visited.flatMap Block.below)) := hperm.append_left _
      _ |>.Perm (starts ++ (block.below ++ visited.flatMap Block.below)) :=
          perm_append_comm_assoc _ _ _

/-- A walk may go on with another start. -/
theorem start (h : w.Accounted starts seen []) (id : String) :
    w.Accounted (starts ++ [id]) seen [id] := by
  obtain ⟨visited, hids, hvisited, hperm⟩ := h
  rw [append_nil] at hperm
  refine ⟨visited, hids, hvisited, ?_⟩
  refine (hperm.append_right [id]).trans ?_
  rw [append_assoc, append_assoc]
  exact perm_append_comm.append_left starts

theorem subperm (h : w.Accounted starts seen pending) (hseen : seen.Nodup)
    (hstarts : starts.Subperm (w.roots.map Block.id)) :
    (seen ++ pending).Subperm (w.roots.map Block.id ++ w.targets) := by
  obtain ⟨visited, rfl, hvisited, hperm⟩ := h
  obtain ⟨listed, hlisted, hsublist⟩ := subperm_of_subset hseen.of_map hvisited
  have hbelow : (visited.flatMap Block.below).Subperm (w.blocks.flatMap Block.below) :=
    ⟨listed.flatMap Block.below, hlisted.flatMap_right _, hsublist.flatMap _⟩
  have hall := hstarts.append (hbelow.trans w.targets_perm.symm.subperm)
  exact hperm.subperm.trans hall

theorem nodup (h : w.Accounted starts seen pending) (hseen : seen.Nodup)
    (hstarts : starts.Subperm (w.roots.map Block.id))
    (hnodup : (w.roots.map Block.id ++ w.targets).Nodup) : (seen ++ pending).Nodup := by
  obtain ⟨listed, hlisted, hsublist⟩ := h.subperm hseen hstarts
  exact hlisted.nodup_iff.1 (hnodup.sublist hsublist)

end Accounted

section

variable (hknown : ∀ id ∈ w.targets, ∃ block ∈ w.blocks, block.id = id)
    (hnodup : (w.roots.map Block.id ++ w.targets).Nodup)

include hknown hnodup

variable {starts : List String}

/-- A walk goes well if every link leads to a block and no block is named twice. -/
theorem Walks.exists_ok (h : w.Walks seen pending outcome)
    (hstarts : starts.Subperm (w.roots.map Block.id)) (hseen : seen.Nodup)
    (haccounted : w.Accounted starts seen pending) :
    ∃ seen', outcome = .ok seen' ∧ seen'.Nodup ∧ w.Accounted starts seen' [] := by
  induction h with
  | done seen => exact ⟨seen, rfl, hseen, haccounted⟩
  | again hid =>
    have htwice := haccounted.nodup hseen hstarts hnodup
    exact absurd rfl ((nodup_append.1 htwice).2.2 _ hid _ mem_cons_self)
  | @unknown seen pending id hid hget =>
    exfalso
    have hmem : id ∈ w.roots.map Block.id ++ w.targets :=
      (haccounted.subperm hseen hstarts).subset (mem_append_right _ mem_cons_self)
    refine not_mem_ids_of_get?_eq_none hget (mem_map.2 ?_)
    rcases mem_append.1 hmem with hroot | htarget
    · obtain ⟨root, hroot, hrootId⟩ := mem_map.1 hroot
      exact ⟨root, (mem_roots_iff.1 hroot).1, hrootId⟩
    · exact hknown id htarget
  | visit hid hget _ ih =>
    exact ih (nodup_cons.2 ⟨hid, hseen⟩) (haccounted.visit hget)

theorem WalksAll.exists_ok (h : w.WalksAll seen roots outcome)
    (hstarts : (starts ++ roots.map Block.id).Subperm (w.roots.map Block.id)) (hseen : seen.Nodup)
    (haccounted : w.Accounted starts seen []) : ∃ seen', outcome = .ok seen' := by
  induction h generalizing starts with
  | done seen => exact ⟨seen, rfl⟩
  | @fault seen root rest fault hwalk =>
    rw [map_cons, append_cons] at hstarts
    have hfirst := (sublist_append_left _ _).subperm.trans hstarts
    obtain ⟨seen', houtcome, -⟩ :=
      hwalk.exists_ok hknown hnodup hfirst hseen (haccounted.start root.id)
    cases houtcome
  | @next seen between root rest outcome hwalk _ ih =>
    rw [map_cons, append_cons] at hstarts
    have hfirst := (sublist_append_left _ _).subperm.trans hstarts
    obtain ⟨seen', houtcome, hbetween, haccounted'⟩ :=
      hwalk.exists_ok hknown hnodup hfirst hseen (haccounted.start root.id)
    cases houtcome
    exact ih hstarts hbetween haccounted'

theorem exists_visitAll_of_nodup : ∃ seen, w.visitAll [] w.roots = .ok seen := by
  have hwalk : w.WalksAll [] w.roots (w.visitAll [] w.roots) :=
    walksAll_visitAll nodup_nil (nil_subset _)
  have hstart : w.Accounted [] [] [] := ⟨[], rfl, by simp, by simp⟩
  exact hwalk.exists_ok hknown hnodup (List.Subperm.refl _) nodup_nil hstart

/-- The check can then fail only because blocks are not reached, and it lists these in their
order. -/
theorem validate_cases_of_nodup :
    (w.validate = .ok () ∧ ∀ block ∈ w.blocks, w.Reached block.id) ∨
      ∃ ids, w.validate = .error (.unreachable ids) ∧ ids ≠ [] ∧ ids.Pairwise (· < ·) ∧
        ∀ id, id ∈ ids ↔ id ∈ w.blocks.map Block.id ∧ ¬ w.Reached id := by
  obtain ⟨seen, hvisit⟩ := exists_visitAll_of_nodup hknown hnodup
  have hvalidate : ∀ stranded,
      (w.byId.map Block.id).filter (fun id => !seen.contains id) = stranded →
      w.validate = if stranded.isEmpty then .ok () else .error (.unreachable stranded) := by
    rintro stranded rfl
    unfold validate
    rw [hvisit]
    rfl
  have hstranded : ∀ id, id ∈ (w.byId.map Block.id).filter (fun id => !seen.contains id) ↔
      id ∈ w.blocks.map Block.id ∧ ¬ w.Reached id := by
    intro id
    rw [← mem_iff_reached hvisit]
    simp [byId]
  cases hempty : (w.byId.map Block.id).filter (fun id => !seen.contains id) with
  | nil =>
    rw [hempty] at hstranded
    left
    refine ⟨hvalidate [] hempty, ?_⟩
    intro block hblock
    by_contra hnot
    have hmem := (hstranded block.id).2 ⟨mem_map_of_mem hblock, hnot⟩
    cases hmem
  | cons first others =>
    have hsorted := w.increasing_ids_byId.filter (fun id => !seen.contains id)
    rw [hempty] at hstranded hsorted
    right
    exact ⟨first :: others, hvalidate _ hempty, cons_ne_nil _ _, hsorted, hstranded⟩

end

/-! ## Forests -/

/-- Every link leads to a block, and none to one without a parent. Every other block is at the end of
one link and is reached from a block without a parent. -/
structure Sound (w : Workspace) : Prop where
  known : ∀ id ∈ w.targets, ∃ block ∈ w.blocks, block.id = id
  free : ∀ block ∈ w.blocks, block.parent = none → block.id ∉ w.targets
  held : ∀ block ∈ w.blocks, block.parent ≠ none →
    w.targets.count block.id = 1 ∧ w.Reached block.id

/-- The links form a forest over all blocks, and its roots are the blocks without a parent. -/
structure IsForest (w : Workspace) : Prop where
  known : ∀ id ∈ w.targets, ∃ block ∈ w.blocks, block.id = id
  nodup : w.targets.Nodup
  acyclic : ∀ id, ¬ Relation.TransGen w.LinksTo id id
  root_iff : ∀ block ∈ w.blocks, block.parent = none ↔ block.id ∉ w.targets

/-- A block at the end of one link only is held by one block. -/
theorem eq_of_linksTo (hnodup : w.targets.Nodup) {id' : String} (h : w.LinksTo id child)
    (h' : w.LinksTo id' child) : id = id' := by
  obtain ⟨block, hblock, rfl, position, hbranch⟩ := h
  obtain ⟨block', hblock', rfl, position', hbranch'⟩ := h'
  by_contra hne
  have hsymm : Std.Symm (Function.onFun List.Disjoint
      fun block : Block => block.branches.map Prod.snd) := ⟨fun _ _ hab => hab.symm⟩
  have hapart := (nodup_flatMap.1 hnodup).2.forall hblock hblock'
    (fun hsame => hne (congrArg Block.id hsame))
  refine hapart (a := child) ?_ ?_
  · exact mem_map.2 ⟨(position, child), Block.mem_branches_iff.2 hbranch, rfl⟩
  · exact mem_map.2 ⟨(position', child), Block.mem_branches_iff.2 hbranch', rfl⟩

namespace Sound

theorem nodup_targets (h : w.Sound) : w.targets.Nodup := by
  rw [nodup_iff_count_eq_one]
  intro id hid
  obtain ⟨block, hblock, rfl⟩ := h.known id hid
  exact (h.held block hblock fun hparent => h.free block hblock hparent hid).1

theorem reached (h : w.Sound) (hblock : block ∈ w.blocks) : w.Reached block.id := by
  by_cases hparent : block.parent = none
  · exact reached_of_mem_roots (mem_roots_iff.2 ⟨hblock, hparent⟩)
  · exact (h.held block hblock hparent).2

theorem nodup (h : w.Sound) : (w.roots.map Block.id ++ w.targets).Nodup := by
  refine nodup_append.2 ⟨w.nodup_ids_roots, h.nodup_targets, ?_⟩
  rintro id hid target htarget rfl
  obtain ⟨root, hroot, rfl⟩ := mem_map.1 hid
  obtain ⟨hmem, hparent⟩ := mem_roots_iff.1 hroot
  exact h.free root hmem hparent htarget

/-- No circle leads back to a block that is reached: it could be entered only at the root, which no
link leads to, or through a second link. -/
theorem acyclic_of_reached (h : w.Sound) (hreached : w.Reached id) :
    ¬ Relation.TransGen w.LinksTo id id := by
  obtain ⟨root, hroot, hparent, hpath⟩ := hreached
  induction hpath with
  | refl =>
    intro hcircle
    obtain ⟨last, -, hlast⟩ := Relation.TransGen.tail'_iff.1 hcircle
    exact h.free root hroot hparent (mem_targets_iff.2 ⟨last, hlast⟩)
  | @tail holder child _ hlink ih =>
    intro hcircle
    obtain ⟨last, hround, hlast⟩ := Relation.TransGen.tail'_iff.1 hcircle
    obtain rfl : last = holder := eq_of_linksTo h.nodup_targets hlast hlink
    exact ih (Relation.TransGen.head' hlink hround)

theorem isForest (h : w.Sound) : w.IsForest where
  known := h.known
  nodup := h.nodup_targets
  acyclic := by
    intro id hcircle
    obtain ⟨last, -, hlast⟩ := Relation.TransGen.tail'_iff.1 hcircle
    obtain ⟨block, hblock, rfl⟩ := h.known id (mem_targets_iff.2 ⟨last, hlast⟩)
    exact h.acyclic_of_reached (h.reached hblock) hcircle
  root_iff := by
    intro block hblock
    constructor
    · exact h.free block hblock
    · intro hfree
      by_contra hparent
      have hcount := (h.held block hblock hparent).1
      rw [count_eq_zero_of_not_mem hfree] at hcount
      omega

end Sound

namespace IsForest

/-- Without circles, going up from a block ends, and it ends at a block without a parent. -/
theorem reached (h : w.IsForest) (hblock : block ∈ w.blocks) : w.Reached block.id := by
  let above : {block // block ∈ w.blocks} → {block // block ∈ w.blocks} → Prop :=
    fun a b => Relation.TransGen w.LinksTo a.1.id b.1.id
  have htrans : IsTrans _ above := ⟨fun _ _ _ hab hbc => hab.trans hbc⟩
  have hirrefl : Std.Irrefl above := ⟨fun a => h.acyclic a.1.id⟩
  have hfinite : Finite {block // block ∈ w.blocks} := w.blocks.finite_toSet
  have hwf : WellFounded above := Finite.wellFounded_of_trans_of_irrefl above
  suffices hall : ∀ member : {block // block ∈ w.blocks}, w.Reached member.1.id from
    hall ⟨block, hblock⟩
  intro member
  induction member using hwf.induction with
  | _ member ih =>
    by_cases hparent : member.1.parent = none
    · exact reached_of_mem_roots (mem_roots_iff.2 ⟨member.2, hparent⟩)
    · have htarget : member.1.id ∈ w.targets := by
        by_contra hfree
        exact hparent ((h.root_iff _ member.2).2 hfree)
      obtain ⟨id, hlink⟩ := mem_targets_iff.1 htarget
      have hholds := hlink
      obtain ⟨holder, hholder, rfl, -⟩ := hholds
      exact (ih ⟨holder, hholder⟩ (.single hlink)).step hlink

theorem sound (h : w.IsForest) : w.Sound where
  known := h.known
  free := fun block hblock => (h.root_iff block hblock).1
  held := by
    intro block hblock hparent
    refine ⟨?_, h.reached hblock⟩
    apply count_eq_one_of_mem h.nodup
    by_contra hfree
    exact hparent ((h.root_iff block hblock).2 hfree)

end IsForest

/-- Only sound workspaces are valid. -/
theorem sound_of_validate (h : w.validate = .ok ()) : w.Sound := by
  have hids := (ids_perm_of_validate h).trans (w.targets_perm.symm.append_left _)
  have hnodup := hids.nodup_iff.1 w.distinct
  have hknown : ∀ id ∈ w.targets, ∃ block ∈ w.blocks, block.id = id := by
    intro id hid
    exact mem_map.1 (hids.mem_iff.2 (mem_append_right _ hid))
  have hfree : ∀ block ∈ w.blocks, block.parent = none → block.id ∉ w.targets := by
    intro block hblock hparent htarget
    have hroot : block.id ∈ w.roots.map Block.id :=
      mem_map_of_mem (mem_roots_iff.2 ⟨hblock, hparent⟩)
    exact (nodup_append.1 hnodup).2.2 _ hroot _ htarget rfl
  refine ⟨hknown, hfree, ?_⟩
  intro block hblock hparent
  constructor
  · have hnotRoot : block.id ∉ w.roots.map Block.id := by
      intro hmem
      obtain ⟨root, hroot, hid⟩ := mem_map.1 hmem
      obtain ⟨hrootMem, hrootParent⟩ := mem_roots_iff.1 hroot
      obtain rfl := eq_of_id_eq hrootMem hblock hid
      exact hparent hrootParent
    have hcount : (w.blocks.map Block.id).count block.id = 1 :=
      count_eq_one_of_mem w.distinct (mem_map_of_mem hblock)
    rwa [hids.count_eq, count_append, count_eq_zero_of_not_mem hnotRoot,
      Nat.zero_add] at hcount
  · rcases validate_cases_of_nodup hknown hnodup with ⟨-, hreached⟩ | ⟨ids, hfault, -⟩
    · exact hreached block hblock
    · rw [h] at hfault
      cases hfault

theorem validate_of_sound (h : w.Sound) : w.validate = .ok () := by
  rcases validate_cases_of_nodup h.known h.nodup with ⟨hvalid, -⟩ | ⟨ids, -, hne, -, hids⟩
  · exact hvalid
  · obtain ⟨id, hid⟩ := exists_mem_of_ne_nil ids hne
    obtain ⟨hmem, hnot⟩ := (hids id).1 hid
    obtain ⟨block, hblock, rfl⟩ := mem_map.1 hmem
    exact absurd (h.reached hblock) hnot

/-- The check of any workspace comes to an end before the bound on its steps is met. It accepts the
workspace exactly if every link leads to a block, no link leads to a block without a parent, and every
other block is at the end of one link and is reached from a block without a parent. Exactly then the
links form a forest over all blocks whose roots are the blocks without a parent. -/
theorem validate_eq_ok_iff_forest (w : Workspace) :
    w.WalksAll [] w.roots (w.visitAll [] w.roots) ∧
      (w.validate = .ok () ↔ w.Sound) ∧ (w.Sound ↔ w.IsForest) := by
  refine ⟨?_, ?_, ?_⟩
  · exact walksAll_visitAll nodup_nil (nil_subset _)
  · exact ⟨sound_of_validate, validate_of_sound⟩
  · exact ⟨Sound.isForest, IsForest.sound⟩

end Workspace

end RobotBlocks
