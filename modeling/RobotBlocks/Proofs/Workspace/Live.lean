import Mathlib.Data.List.Perm.Subperm
import RobotBlocks.Proofs.Workspace.Level
import RobotBlocks.Proofs.Workspace.Order

/-!
# Live blocks

A disabled block hides what stands in its sockets and slots, and a disabled root also what comes after
it. `Block.trimmed` is a block without the links to what it hides, and a block is live (`Live`) if it
is reached from a root along the links that are left. All other blocks are dead.

Two workspaces have the same live blocks (`SameLive`) if they differ in dead blocks only, and in the
links that lead to them. Such workspaces have the same roots in the same order, up to trimming, and
what hangs below matching blocks matches again (`Matched.child`, `Matched.chain`).

Whether what comes after a disabled root is live is a parameter (`pastRoots`).
-/

set_option autoImplicit false

namespace RobotBlocks

open List Block

/-! ## Trimming -/

namespace Block

/-- The block without the links to blocks that it hides. -/
def trimmed (pastRoots : Bool) (block : Block) : Block :=
  if block.disabled then
    { block with
      values := {}
      statements := {}
      next := if pastRoots || block.parent.isSome then block.next else none }
  else block

variable {pastRoots : Bool} {block : Block}

@[simp] theorem id_trimmed : (block.trimmed pastRoots).id = block.id := by
  unfold trimmed
  split <;> rfl

@[simp] theorem disabled_trimmed : (block.trimmed pastRoots).disabled = block.disabled := by
  unfold trimmed
  split <;> rfl

@[simp] theorem parent_trimmed : (block.trimmed pastRoots).parent = block.parent := by
  unfold trimmed
  split <;> rfl

@[simp] theorem kind_trimmed : (block.trimmed pastRoots).kind = block.kind := by
  unfold trimmed
  split <;> rfl

@[simp] theorem procedureName_trimmed :
    (block.trimmed pastRoots).procedureName = block.procedureName := by
  unfold trimmed
  split <;> rfl

@[simp] theorem procedureArguments_trimmed :
    (block.trimmed pastRoots).procedureArguments = block.procedureArguments := by
  unfold trimmed
  split <;> rfl

theorem before_trimmed (a b : Block) :
    (a.trimmed pastRoots).before (b.trimmed pastRoots) = a.before b := by
  have hplace : ∀ block : Block, (block.trimmed pastRoots).x = block.x ∧
      (block.trimmed pastRoots).y = block.y := by
    intro block
    unfold trimmed
    split <;> exact ⟨rfl, rfl⟩
  unfold before
  rw [id_trimmed, id_trimmed, (hplace a).1, (hplace a).2, (hplace b).1, (hplace b).2]

theorem trimmed_of_enabled (h : block.disabled = false) : block.trimmed pastRoots = block := by
  unfold trimmed
  rw [if_neg (by simp [h])]

/-- Only the chain behind a disabled root is cut off. -/
theorem next_trimmed (h : block.disabled = false ∨ block.parent.isSome = true) :
    (block.trimmed pastRoots).next = block.next := by
  unfold trimmed
  split
  · rename_i hdisabled
    have hparent : block.parent.isSome = true := by
      rcases h with henabled | hparent
      · rw [hdisabled] at henabled
        cases henabled
      · exact hparent
    simp [hparent]
  · rfl

end Block

/-! ## Roots and links of valid workspaces -/

namespace Workspace

variable {w : Workspace}

/-- In a workspace that passes its check, the roots and what hangs below the blocks name every block
once. -/
theorem nodup_roots_append_below (h : w.validate = .ok ()) :
    (w.roots.map Block.id ++ w.blocks.flatMap Block.below).Nodup :=
  (ids_perm_of_validate h).nodup_iff.1 w.distinct

variable {block : Block} {id : String}

/-- What hangs below a block hangs somewhere. -/
theorem parent_isSome_of_below (h : w.validate = .ok ()) {child : Block}
    (hblock : block ∈ w.blocks) (hid : id ∈ block.below) (hchild : w.get? id = some child) :
    child.parent.isSome = true := by
  have hdisjoint := (nodup_append.1 (nodup_roots_append_below h)).2.2
  rw [Option.isSome_iff_ne_none]
  intro hparent
  have hmem : child ∈ w.blocks := mem_of_find?_eq_some hchild
  have hchildId : child.id = id := id_of_get? hchild
  have hroot : child ∈ w.roots :=
    mem_mergeSort.2 (mem_filter.2 ⟨hmem, by simp [hparent]⟩)
  refine hdisjoint id ?_ id (mem_flatMap.2 ⟨block, hblock, hid⟩) rfl
  exact mem_map.2 ⟨child, hroot, hchildId⟩

/-! ## Live blocks -/

/-- A block is reached from a root without a step to a hidden block. -/
inductive Live (pastRoots : Bool) (w : Workspace) : Block → Prop
  | root {block : Block} : block ∈ w.blocks → block.parent = none → Live pastRoots w block
  | link {block child : Block} {id : String} : Live pastRoots w block →
      id ∈ (block.trimmed pastRoots).below → w.get? id = some child → Live pastRoots w child

variable {pastRoots : Bool} {w' : Workspace}
variable {block : Block} {level : String → Nat}

theorem Live.mem (h : w.Live pastRoots block) : block ∈ w.blocks := by
  cases h with
  | root hmem _ => exact hmem
  | link _ _ hchild => exact mem_of_find?_eq_some hchild

theorem live_of_mem_roots {root : Block} (h : root ∈ w.roots) : w.Live pastRoots root := by
  obtain ⟨hmem, hparent⟩ := mem_filter.1 (mem_mergeSort.1 h)
  exact .root hmem (by simpa using hparent)

/-- Two workspaces have the same live blocks, up to links to dead ones. -/
def SameLive (pastRoots : Bool) (w w' : Workspace) : Prop :=
  ∀ kept, (∃ block, w.Live pastRoots block ∧ block.trimmed pastRoots = kept) ↔
    ∃ block, w'.Live pastRoots block ∧ block.trimmed pastRoots = kept

/-- The live blocks, as a list that holds the roots and all that hangs below it. -/
theorem live_iff_mem {live : List Block} (hlive : ∀ block ∈ live, w.Live pastRoots block)
    (hroots : ∀ block ∈ w.blocks, block.parent = none → block ∈ live)
    (hbelow : ∀ block ∈ live, ∀ id ∈ (block.trimmed pastRoots).below, ∀ child,
      w.get? id = some child → child ∈ live) : w.Live pastRoots block ↔ block ∈ live := by
  refine ⟨fun h => ?_, hlive block⟩
  induction h with
  | root hmem hparent => exact hroots _ hmem hparent
  | link _ hid hchild ih => exact hbelow _ ih _ hid _ hchild

theorem sameLive_of_live_iff_mem {live live' : List Block}
    (h : ∀ block, w.Live pastRoots block ↔ block ∈ live)
    (h' : ∀ block, w'.Live pastRoots block ↔ block ∈ live')
    (heq : live.map (Block.trimmed pastRoots) = live'.map (Block.trimmed pastRoots)) :
    SameLive pastRoots w w' := by
  intro kept
  simp only [h, h', ← mem_map, heq]

/-- Two live blocks of two workspaces are the same, up to links to dead ones. -/
structure Matched (pastRoots : Bool) (w w' : Workspace) (block block' : Block) : Prop where
  live : w.Live pastRoots block
  live' : w'.Live pastRoots block'
  trimmed_eq : block.trimmed pastRoots = block'.trimmed pastRoots

theorem SameLive.exists_matched (h : SameLive pastRoots w w') (hlive : w.Live pastRoots block) :
    ∃ block', Matched pastRoots w w' block block' := by
  obtain ⟨block', hlive', htrimmed⟩ := (h _).1 ⟨block, hlive, rfl⟩
  exact ⟨block', hlive, hlive', htrimmed.symm⟩

namespace Matched

variable {block block' : Block}

variable (h : Matched pastRoots w w' block block')

include h

theorem id_eq : block.id = block'.id := by
  simpa using congrArg Block.id h.trimmed_eq

theorem disabled_eq : block.disabled = block'.disabled := by
  simpa using congrArg Block.disabled h.trimmed_eq

theorem kind_eq : block.kind = block'.kind := by
  simpa using congrArg Block.kind h.trimmed_eq

theorem parent_eq : block.parent = block'.parent := by
  simpa using congrArg Block.parent h.trimmed_eq

/-- An enabled block hides nothing, so it matches only itself. -/
theorem eq_of_enabled (henabled : block.disabled = false) : block' = block := by
  have henabled' : block'.disabled = false := h.disabled_eq ▸ henabled
  have htrimmed := h.trimmed_eq
  rw [trimmed_of_enabled henabled, trimmed_of_enabled henabled'] at htrimmed
  exact htrimmed.symm

/-- What hangs below a block, and is not hidden by it, is found and matched in both workspaces. -/
theorem child (hsame : SameLive pastRoots w w') {found : Block}
    (hid : id ∈ (block.trimmed pastRoots).below) (hfound : w.get? id = some found) :
    ∃ found', w'.get? id = some found' ∧ Matched pastRoots w w' found found' := by
  obtain ⟨found', hmatched⟩ := hsame.exists_matched (.link h.live hid hfound)
  have hfoundId : found.id = id := id_of_get? hfound
  refine ⟨found', ?_, hmatched⟩
  rw [← hfoundId, hmatched.id_eq]
  exact get?_of_mem hmatched.live'.mem

end Matched

/-- An enabled block is live in two workspaces. -/
structure Shared (pastRoots : Bool) (w w' : Workspace) (block : Block) : Prop where
  live : w.Live pastRoots block
  live' : w'.Live pastRoots block
  enabled : block.disabled = false

theorem Matched.shared {block' : Block} (h : Matched pastRoots w w' block block')
    (henabled : block.disabled = false) : Shared pastRoots w w' block :=
  ⟨h.live, h.eq_of_enabled henabled ▸ h.live', henabled⟩

theorem Shared.matched (h : Shared pastRoots w w' block) : Matched pastRoots w w' block block :=
  ⟨h.live, h.live', rfl⟩

theorem SameLive.shared (h : SameLive pastRoots w w') (hlive : w.Live pastRoots block)
    (henabled : block.disabled = false) : Shared pastRoots w w' block := by
  obtain ⟨block', hmatched⟩ := h.exists_matched hlive
  exact hmatched.shared henabled

/-- Both workspaces find what hangs below an enabled block, at lower levels. -/
theorem Shared.exists_child (hsame : SameLive pastRoots w w') (hlevel : w.Leveled level)
    (h : Shared pastRoots w w' block) (hid : id ∈ block.below) :
    ∃ child child', w.get? id = some child ∧ w'.get? id = some child' ∧
      Matched pastRoots w w' child child' ∧ level child.id < level block.id := by
  obtain ⟨child, -, hget, hlt⟩ := hlevel.exists_child h.live.mem hid
  have hbelow : id ∈ (block.trimmed pastRoots).below := by
    rw [trimmed_of_enabled h.enabled]
    exact hid
  obtain ⟨child', hget', hmatched⟩ := h.matched.child hsame hbelow hget
  exact ⟨child, child', hget, hget', hmatched, hlt⟩

theorem Live.eq_of_trimmed_id_eq {a b : Block} (ha : w.Live pastRoots a) (hb : w.Live pastRoots b)
    (h : (a.trimmed pastRoots).id = (b.trimmed pastRoots).id) : a = b :=
  eq_of_id_eq ha.mem hb.mem (by simpa using h)

variable {l : List Block}

theorem nodup_map_trimmed (h : l.Nodup) (hlive : ∀ block ∈ l, w.Live pastRoots block) :
    (l.map (Block.trimmed pastRoots)).Nodup :=
  h.map_on fun a ha b hb heq =>
    (hlive a ha).eq_of_trimmed_id_eq (hlive b hb) (congrArg Block.id heq)

variable {select : Block → Bool}

theorem mem_map_trimmed_iff
    (hselect : ∀ block : Block, select (block.trimmed pastRoots) = select block)
    (hmem : ∀ block, block ∈ l ↔ w.Live pastRoots block ∧ select block = true) (kept : Block) :
    kept ∈ l.map (Block.trimmed pastRoots) ↔
      (∃ block, w.Live pastRoots block ∧ block.trimmed pastRoots = kept) ∧ select kept = true := by
  simp only [mem_map, hmem]
  constructor
  · rintro ⟨block, ⟨hlive, hselected⟩, rfl⟩
    exact ⟨⟨block, hlive, rfl⟩, by rw [hselect, hselected]⟩
  · rintro ⟨⟨block, hlive, rfl⟩, hselected⟩
    exact ⟨block, ⟨hlive, by rw [← hselected, hselect]⟩, rfl⟩

/-- A selection of live blocks that looks only at what trimming keeps is the same in both workspaces,
if it is sorted in both in the same way. -/
theorem SameLive.forall₂_of_sorted (h : SameLive pastRoots w w') (before : Block → Block → Prop)
    (htrimmed : ∀ {a b : Block}, before a b → before (a.trimmed pastRoots) (b.trimmed pastRoots))
    (hantisymm : ∀ {a b : Block}, before a b → before b a → a.id = b.id)
    (hselect : ∀ block : Block, select (block.trimmed pastRoots) = select block) {l' : List Block}
    (hsorted : l.Pairwise before) (hsorted' : l'.Pairwise before) (hnodup : l.Nodup)
    (hnodup' : l'.Nodup)
    (hmem : ∀ block, block ∈ l ↔ w.Live pastRoots block ∧ select block = true)
    (hmem' : ∀ block, block ∈ l' ↔ w'.Live pastRoots block ∧ select block = true) :
    List.Forall₂ (Matched pastRoots w w') l l' := by
  let keep : List Block → List Block := List.map (Block.trimmed pastRoots)
  have hkept := mem_map_trimmed_iff hselect hmem
  have hkept' := mem_map_trimmed_iff hselect hmem'
  have hlive : ∀ block ∈ l, w.Live pastRoots block := fun block hblock => ((hmem block).1 hblock).1
  have hlive' : ∀ block ∈ l', w'.Live pastRoots block := fun block hblock =>
    ((hmem' block).1 hblock).1
  have hperm : (keep l).Perm (keep l') := by
    refine (perm_ext_iff_of_nodup (nodup_map_trimmed hnodup hlive)
      (nodup_map_trimmed hnodup' hlive')).2 fun kept => ?_
    rw [hkept, hkept', h kept]
  -- both lists are sorted, so they have one order
  have heq : keep l = keep l' := by
    refine hperm.eq_of_pairwise (fun a b ha hb hab hba => ?_)
      (pairwise_map.2 (hsorted.imp htrimmed)) (pairwise_map.2 (hsorted'.imp htrimmed))
    obtain ⟨⟨block, hblock, rfl⟩, -⟩ := (hkept a).1 ha
    obtain ⟨⟨other, hother, rfl⟩, -⟩ := (hkept b).1 (hperm.mem_iff.2 hb)
    rw [hblock.eq_of_trimmed_id_eq hother (hantisymm hab hba)]
  have hforall : List.Forall₂ (fun block block' : Block =>
      block.trimmed pastRoots = block'.trimmed pastRoots) l l' := by
    have hforall : List.Forall₂ Eq (keep l) (keep l') := forall₂_eq_eq_eq ▸ heq
    rw [forall₂_map_left_iff, forall₂_map_right_iff] at hforall
    exact hforall
  have hleft := (forall₂_and_left _ _).2 ⟨hlive, hforall⟩
  have hboth := (forall₂_and_left _ _).2 ⟨hlive', hleft.flip⟩
  exact hboth.flip.imp fun block block' hmatched => ⟨hmatched.2.1, hmatched.1, hmatched.2.2⟩

/-- The roots of both workspaces match one by one. -/
theorem SameLive.roots (h : SameLive pastRoots w w') :
    List.Forall₂ (Matched pastRoots w w') w.roots w'.roots := by
  have hmem : ∀ {v : Workspace} (root : Block), root ∈ v.roots ↔
      v.Live pastRoots root ∧ root.parent.isNone = true := by
    intro v root
    constructor
    · intro hroot
      exact ⟨live_of_mem_roots hroot, (mem_filter.1 (mem_mergeSort.1 hroot)).2⟩
    · rintro ⟨hlive, hparent⟩
      exact mem_mergeSort.2 (mem_filter.2 ⟨hlive.mem, hparent⟩)
  have hnodup : ∀ v : Workspace, v.roots.Nodup := fun v =>
    (mergeSort_perm _ _).nodup_iff.2 (v.distinct.of_map.filter _)
  refine h.forall₂_of_sorted (fun a b => a.before b = true) (fun {a b} hab => ?_) id_eq_of_before
    (fun block => ?_) (pairwise_roots w) (pairwise_roots w') (hnodup w) (hnodup w') hmem hmem
  · rw [before_trimmed]
    exact hab
  · rw [parent_trimmed]

/-! ## Chains -/

/-- Two chains that start with matching blocks go on in step to their ends. -/
theorem Matched.chain (hsame : SameLive pastRoots w w') (hvalid : w.validate = .ok ())
    (hvalid' : w'.validate = .ok ()) {block' : Block} (h : Matched pastRoots w w' block block')
    (hgoes : block.disabled = false ∨ block.parent.isSome = true) :
    List.Forall₂ (Matched pastRoots w w') (w.chain block.id).1 (w'.chain block'.id).1 := by
  let goesOn (block : Block) : Prop := block.disabled = false ∨ block.parent.isSome = true
  have hchain := nextChain_chain hvalid h.live.mem
  have hchain' := h.id_eq ▸ nextChain_chain hvalid' h.live'.mem
  obtain ⟨level, hlevel⟩ := exists_leveled_of_validate hvalid
  have hmatched : List.Forall₂ (fun a b => Matched pastRoots w w' a b ∧ goesOn a)
      (w.chain block.id).1 (w'.chain block.id).1 := by
    refine hchain.forall₂ ?_ hchain' ?_
    · rintro a b ⟨hab, ha⟩
      have hb : goesOn b := by
        unfold goesOn
        rwa [← hab.disabled_eq, ← hab.parent_eq]
      refine ⟨?_, fun id hid => ?_⟩
      · rw [← next_trimmed ha, ← next_trimmed hb, hab.trimmed_eq]
      · have hbelow := mem_below_of_next hid
        obtain ⟨child, -, hget, -⟩ := hlevel.exists_child hab.live.mem hbelow
        obtain ⟨child', hget', hchild⟩ := hab.child hsame
          (mem_below_of_next ((next_trimmed ha).trans hid)) hget
        exact ⟨child, child', hget, hget', hchild,
          .inr (parent_isSome_of_below hvalid hab.live.mem hbelow hget)⟩
    · rintro id ⟨⟩
      exact ⟨block, block', get?_of_mem h.live.mem, h.id_eq ▸ get?_of_mem h.live'.mem, h, hgoes⟩
  rw [← h.id_eq]
  exact hmatched.imp fun _ _ => And.left

end Workspace

end RobotBlocks
