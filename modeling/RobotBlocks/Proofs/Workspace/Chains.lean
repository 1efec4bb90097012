import RobotBlocks.Proofs.Workspace.Live
import RobotBlocks.Proofs.Workspace.Prune
import RobotBlocks.Proofs.Workspace.Walk

/-!
# Chains of statements

The chain of a root goes from block to block by the links to the next ones (`NextChain`). In a
workspace that passes its check, nothing else leads to its blocks: what stands in their sockets and
slots, and what hangs below the other roots, has no way to them (`Apart`). To switch off blocks of the
chain therefore leaves all of that as it is (`sharePart_prune`).
-/

set_option autoImplicit false

namespace RobotBlocks

open List

namespace Workspace

/-! ## Shared parts -/

/-- The block with an identity is the same in two workspaces and belongs to a part. -/
def Shares (w w' : Workspace) (part : Block → Prop) (id : String) : Prop :=
  ∃ child, w.get? id = some child ∧ w'.get? id = some child ∧ part child

/-- Two workspaces share a part: with a block, all that hangs below it. -/
def SharePart (w w' : Workspace) (part : Block → Prop) : Prop :=
  ∀ block, part block → ∀ position id, block.branch? position = some id → w.Shares w' part id

/-- Two workspaces share what stands in the sockets and slots of a block. -/
def SharesInside (w w' : Workspace) (part : Block → Prop) (block : Block) : Prop :=
  ∀ position id, position ≠ .next → block.branch? position = some id → w.Shares w' part id

variable {block : Block}

namespace SharePart

variable {w w' : Workspace} {part : Block → Prop}

theorem inside (h : w.SharePart w' part) (hblock : part block) : w.SharesInside w' part block :=
  fun position id _ => h block hblock position id

theorem chainFrom (h : w.SharePart w' part) {steps : Nat} {seen : List String}
    {start : Option String} (hstart : ∀ id, start = some id → w.Shares w' part id) :
    w.chainFrom steps seen start = w'.chainFrom steps seen start ∧
      ∀ member ∈ (w.chainFrom steps seen start).1, part member := by
  induction steps generalizing seen start with
  | zero => cases start <;> exact ⟨rfl, by simp [Workspace.chainFrom]⟩
  | succ steps ih =>
    cases start with
    | none => exact ⟨rfl, by simp [Workspace.chainFrom]⟩
    | some id =>
      obtain ⟨block, hget, hget', hblock⟩ := hstart id rfl
      obtain ⟨hrest, hmembers⟩ := @ih (id :: seen) block.next (h block hblock .next)
      rw [Workspace.chainFrom, Workspace.chainFrom, Workspace.block, Workspace.block, hget, hget']
      split
      · exact ⟨rfl, by simp⟩
      · dsimp only
        rw [← hrest]
        refine ⟨rfl, ?_⟩
        intro member hmember
        rcases mem_cons.1 hmember with rfl | hmember
        · exact hblock
        · exact hmembers member hmember

theorem chain (h : w.SharePart w' part) (hsize : w.size = w'.size) {start : String}
    (hstart : w.Shares w' part start) :
    w.chain start = w'.chain start ∧ ∀ member ∈ (w.chain start).1, part member := by
  unfold Workspace.chain
  rw [← hsize]
  refine h.chainFrom ?_
  rintro id ⟨⟩
  exact hstart

end SharePart

/-! ## The links to the next blocks -/

variable {w : Workspace}

namespace NextChain

variable {start : Option String} {chain : List Block}
variable {member : Block}

variable (h : w.NextChain start chain)

include h

theorem unique {chain' : List Block} (h' : w.NextChain start chain') : chain = chain' := by
  induction h generalizing chain' with
  | done =>
    cases h'
    rfl
  | link hget _ ih =>
    cases h' with
    | link hget' hrest' =>
      obtain rfl := Option.some.inj (hget.symm.trans hget')
      rw [ih hrest']

theorem mem (hmember : member ∈ chain) : member ∈ w.blocks := by
  induction h with
  | done => cases hmember
  | link hget _ ih =>
    rcases mem_cons.1 hmember with rfl | hmember
    · exact mem_of_find?_eq_some hget
    · exact ih hmember

/-- A block of a chain is its first one or the next one of another block of the chain. -/
theorem start_or_next (hmember : member ∈ chain) :
    start = some member.id ∨ ∃ holder ∈ chain, holder.next = some member.id := by
  induction h with
  | done => cases hmember
  | @link id block rest hget _ ih =>
    rcases mem_cons.1 hmember with rfl | hmember
    · have hid : member.id = id := id_of_get? hget
      exact .inl (by rw [hid])
    · refine .inr ?_
      rcases ih hmember with hnext | ⟨holder, hholder, hnext⟩
      · exact ⟨block, mem_cons_self, hnext⟩
      · exact ⟨holder, mem_cons_of_mem _ hholder, hnext⟩

/-- All blocks of a chain but the first hang somewhere. -/
theorem parent_isSome (hvalid : w.validate = .ok ()) (hmember : member ∈ chain.tail) :
    member.parent.isSome = true := by
  cases h with
  | done => cases hmember
  | @link id block rest hget hrest =>
    have hheld : ∃ holder ∈ w.blocks, holder.next = some member.id := by
      rcases hrest.start_or_next hmember with hnext | ⟨holder, hholder, hnext⟩
      · exact ⟨block, mem_of_find?_eq_some hget, hnext⟩
      · exact ⟨holder, hrest.mem hholder, hnext⟩
    obtain ⟨holder, hholder, hnext⟩ := hheld
    exact parent_isSome_of_below hvalid hholder (Block.mem_below_of_next hnext)
      (get?_of_mem (hrest.mem hmember))

/-- If blocks after the first one are switched off, a block of the chain is disabled if it was or if it
is one of them. -/
theorem disabled_pruned (hvalid : w.validate = .ok ()) {off : String → Bool}
    (hoff : ∀ id, off id = true → id ∈ chain.tail.map Block.id) (hmember : member ∈ chain) :
    (member.pruned off).disabled = (member.disabled || off member.id) := by
  unfold Block.pruned
  cases hswitched : off member.id with
  | false => simp
  | true =>
    obtain ⟨later, hlater, hid⟩ := mem_map.1 (hoff member.id hswitched)
    obtain rfl := eq_of_id_eq (h.mem (mem_of_mem_tail hlater)) (h.mem hmember) hid
    simp [h.parent_isSome hvalid hlater]

end NextChain

/-! ## What leads to the chain of a root -/

theorem nodup_targets_of_validate (hvalid : w.validate = .ok ()) : w.targets.Nodup := by
  rw [w.targets_perm.nodup_iff]
  exact (nodup_append.1 (nodup_roots_append_below hvalid)).2.1

theorem not_linksTo_root (hvalid : w.validate = .ok ()) {root : Block} (hroot : root ∈ w.roots)
    (id : String) : ¬ w.LinksTo id root.id := by
  intro hlink
  have hdisjoint := (nodup_append.1 (nodup_roots_append_below hvalid)).2.2
  have htarget := w.targets_perm.mem_iff.1 (mem_targets_iff.2 ⟨id, hlink⟩)
  exact hdisjoint root.id (mem_map.2 ⟨root, hroot, rfl⟩) root.id htarget rfl

variable {id : String}

/-- A block holds another one at one position only. -/
theorem position_eq (hvalid : w.validate = .ok ()) (hblock : block ∈ w.blocks)
    {position position' : Position} (h : block.branch? position = some id)
    (h' : block.branch? position' = some id) : position = position' := by
  have hnodup := (nodup_flatMap.1 (nodup_targets_of_validate hvalid)).1 block hblock
  have hsame := inj_on_of_nodup_map hnodup (Block.mem_branches_iff.2 h)
    (Block.mem_branches_iff.2 h') rfl
  exact congrArg Prod.fst hsame

/-- No block of a chain is reached from a block. -/
def Apart (w : Workspace) (chain : List Block) (block : Block) : Prop :=
  block ∈ w.blocks ∧ ∀ member ∈ chain, ¬ Relation.ReflTransGen w.LinksTo block.id member.id

variable {member : Block}

section

variable (hvalid : w.validate = .ok ()) {root : Block} (hroot : root ∈ w.roots)
variable {chain : List Block} (hchain : w.NextChain (some root.id) chain)

include hvalid hroot hchain

/-- What leads to a block of the chain is the block of the chain before it. -/
theorem exists_holder (hmember : member ∈ chain) (hlink : w.LinksTo id member.id) :
    ∃ holder ∈ chain, holder.id = id ∧ holder.next = some member.id := by
  rcases hchain.start_or_next hmember with hstart | ⟨holder, hholder, hnext⟩
  · rw [← Option.some.inj hstart] at hlink
    exact absurd hlink (not_linksTo_root hvalid hroot id)
  · have hheld : w.LinksTo holder.id member.id :=
      ⟨holder, hchain.mem hholder, rfl, .next, hnext⟩
    exact ⟨holder, hholder, eq_of_linksTo (nodup_targets_of_validate hvalid) hheld hlink, hnext⟩

theorem exists_member_of_path (hmember : member ∈ chain)
    (hpath : Relation.ReflTransGen w.LinksTo id member.id) : ∃ first ∈ chain, first.id = id := by
  induction hpath using Relation.ReflTransGen.head_induction_on with
  | refl => exact ⟨member, hmember, rfl⟩
  | head hlink _ ih =>
    obtain ⟨first, hfirst, rfl⟩ := ih
    obtain ⟨holder, hholder, hid, -⟩ := exists_holder hvalid hroot hchain hfirst hlink
    exact ⟨holder, hholder, hid⟩

/-- Other roots are apart from the chain of a root. -/
theorem apart_of_mem_roots {other : Block} (hother : other ∈ w.roots) (hne : other ≠ root) :
    w.Apart chain other := by
  refine ⟨(mem_roots_iff.1 hother).1, fun member hmember hpath => hne ?_⟩
  obtain ⟨first, hfirst, hid⟩ := exists_member_of_path hvalid hroot hchain hmember hpath
  rcases hchain.start_or_next hfirst with hstart | ⟨holder, hholder, hnext⟩
  · exact eq_of_id_eq (mem_roots_iff.1 hother).1 (mem_roots_iff.1 hroot).1
      (hid.symm.trans (Option.some.inj hstart).symm)
  · refine absurd ⟨holder, hchain.mem hholder, rfl, .next, ?_⟩
      (not_linksTo_root hvalid hother holder.id)
    rw [← hid]
    exact hnext

end

/-! ## Blocks of a chain switched off -/

section

variable (hvalid : w.validate = .ok ()) {chain : List Block} {off : String → Bool}
variable (hoff : ∀ id, off id = true → id ∈ chain.map Block.id)

include hoff

theorem Apart.pruned_eq (h : w.Apart chain block) : block.pruned off = block := by
  have hkept : off block.id = false := by
    rw [Bool.eq_false_iff]
    intro hblock
    obtain ⟨member, hmember, hid⟩ := mem_map.1 (hoff block.id hblock)
    exact h.2 member hmember (hid ▸ .refl)
  unfold Block.pruned
  rw [hkept, Bool.and_false]
  rfl

theorem Apart.shares (h : w.Apart chain block) :
    w.Shares (w.prune off) (w.Apart chain) block.id := by
  refine ⟨block, get?_of_mem h.1, ?_, h⟩
  rw [get?_prune, get?_of_mem h.1, Option.map_some, h.pruned_eq hoff]

include hvalid

/-- Switching off blocks of a chain leaves what is apart from it as it is. -/
theorem sharePart_prune : w.SharePart (w.prune off) (w.Apart chain) := by
  intro block hblock position id hid
  obtain ⟨level, hlevel⟩ := exists_leveled_of_validate hvalid
  obtain ⟨child, hchild, hget, -⟩ :=
    hlevel.exists_child hblock.1 (Block.mem_below_iff.2 ⟨position, hid⟩)
  obtain rfl := id_of_get? hget
  have hapart : w.Apart chain child := by
    refine ⟨hchild, fun member hmember hpath => hblock.2 member hmember (hpath.head ?_)⟩
    exact ⟨block, hblock.1, rfl, position, hid⟩
  exact hapart.shares hoff

variable {root : Block} (hroot : root ∈ w.roots) (hchain : w.NextChain (some root.id) chain)
include hroot hchain

/-- What stands in the sockets and slots of the blocks of a chain is apart from it. -/
theorem sharesInside_prune (hmember : member ∈ chain) :
    w.SharesInside (w.prune off) (w.Apart chain) member := by
  intro position id hposition hid
  obtain ⟨level, hlevel⟩ := exists_leveled_of_validate hvalid
  have hmem := hchain.mem hmember
  obtain ⟨child, hchild, hget, -⟩ :=
    hlevel.exists_child hmem (Block.mem_below_iff.2 ⟨position, hid⟩)
  obtain rfl := id_of_get? hget
  have hapart : w.Apart chain child := by
    refine ⟨hchild, fun last hlast hpath => hposition ?_⟩
    -- The child would be a block of the chain itself, and so the next one of its holder.
    obtain ⟨first, hfirst, hfirstId⟩ := exists_member_of_path hvalid hroot hchain hlast hpath
    obtain ⟨holder, hholder, hholderId, hnext⟩ := exists_holder hvalid hroot hchain hfirst
      ⟨member, hmem, rfl, position, hfirstId ▸ hid⟩
    obtain rfl := eq_of_id_eq (hchain.mem hholder) hmem hholderId
    exact position_eq hvalid hmem hid (hfirstId ▸ hnext : holder.branch? .next = some child.id)
  exact hapart.shares hoff

end

end Workspace

end RobotBlocks
