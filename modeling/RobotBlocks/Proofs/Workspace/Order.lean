import RobotBlocks.Proofs.Workspace.Linked
import RobotBlocks.StaticType.Inference

/-!
# Workspaces with the same blocks

A workspace lists its blocks in the order in which they came. Two workspaces hold the same blocks if
look-up finds the same in both (`SameBlocks`); then one list is a rearrangement of the other. Wherever
all blocks are gone through, it is in an order that the blocks themselves fix: the roots by their
place and then by identity, all blocks by identity. No two blocks have one identity, so a
rearrangement does not change these orders, and with them the check of the links, the chains of
statements, the parameters of procedures and the static types stay the same.
-/

set_option autoImplicit false

namespace RobotBlocks

open List
open Inference (inferAll childType addValues addResult addArguments)
open StaticType (within ofSocket ofChild ofBlock inSocket step)

variable {a b : Block}

namespace Block

theorem before_iff :
    a.before b = true ↔ a.y < b.y ∨ (a.y = b.y ∧ (a.x < b.x ∨ (a.x = b.x ∧ a.id ≤ b.id))) := by
  unfold before
  by_cases hy : a.y = b.y <;> by_cases hx : a.x = b.x <;> simp [hy, hx]

theorem before_trans (a b c : Block) (hab : a.before b) (hbc : b.before c) : a.before c := by
  rw [before_iff] at *
  rcases hab with hy | ⟨hy, hxid⟩
  · exact .inl (by rcases hbc with hy' | ⟨hy', -⟩ <;> omega)
  · rcases hbc with hy' | ⟨hy', hxid'⟩
    · exact .inl (by omega)
    · refine .inr ⟨by omega, ?_⟩
      rcases hxid with hx | ⟨hx, hid⟩
      · exact .inl (by rcases hxid' with hx' | ⟨hx', -⟩ <;> omega)
      · rcases hxid' with hx' | ⟨hx', hid'⟩
        · exact .inl (by omega)
        · exact .inr ⟨by omega, String.le_trans hid hid'⟩

theorem before_total (a b : Block) : (a.before b || b.before a) = true := by
  rw [Bool.or_eq_true, before_iff, before_iff]
  rcases Int.lt_trichotomy a.y b.y with hy | hy | hy
  · exact .inl (.inl hy)
  · rcases Int.lt_trichotomy a.x b.x with hx | hx | hx
    · exact .inl (.inr ⟨hy, .inl hx⟩)
    · rcases String.le_total a.id b.id with hid | hid
      · exact .inl (.inr ⟨hy, .inr ⟨hx, hid⟩⟩)
      · exact .inr (.inr ⟨hy.symm, .inr ⟨hx.symm, hid⟩⟩)
    · exact .inr (.inr ⟨hy.symm, .inl hx⟩)
  · exact .inr (.inl hy)

end Block

theorem pairwise_roots (w : Workspace) : w.roots.Pairwise (fun a b => a.before b = true) :=
  pairwise_mergeSort Block.before_trans Block.before_total _

theorem pairwise_byId (w : Workspace) : w.byId.Pairwise (fun a b => a.id ≤ b.id) := by
  refine (pairwise_mergeSort (fun a b c hab hbc => ?_) (fun a b => ?_) w.blocks).imp fun hab => ?_
  · simp only [decide_eq_true_eq] at hab hbc ⊢
    exact String.le_trans hab hbc
  · simpa using String.le_total a.id b.id
  · simpa using hab

theorem Workspace.increasing_ids_byId (w : Workspace) : (w.byId.map Block.id).Pairwise (· < ·) := by
  have hsorted : (w.byId.map Block.id).Pairwise (· ≤ ·) := pairwise_map.2 (pairwise_byId w)
  have hnodup : (w.byId.map Block.id).Nodup :=
    ((mergeSort_perm _ _).map _).nodup_iff.2 w.distinct
  refine (hsorted.and hnodup).imp fun {a b} hab => ?_
  by_contra hlt
  exact hab.2 (String.le_antisymm hab.1 (String.not_lt.1 hlt))

namespace Block

theorem id_eq_of_before (hab : a.before b) (hba : b.before a) : a.id = b.id := by
  rw [before_iff] at hab hba
  have hid : a.id ≤ b.id ∧ b.id ≤ a.id := by
    rcases hab with hy | ⟨hy, hx | ⟨hx, hid⟩⟩ <;> rcases hba with hy' | ⟨hy', hx' | ⟨hx', hid'⟩⟩
    all_goals first | omega | exact ⟨hid, hid'⟩
  exact String.le_antisymm hid.1 hid.2

end Block

namespace Workspace

/-- Two workspaces hold the same blocks under the same identities. -/
def SameBlocks (w w' : Workspace) : Prop := ∀ id, w.get? id = w'.get? id

variable {w : Workspace}

theorem mem_blocks_iff {block : Block} : block ∈ w.blocks ↔ w.get? block.id = some block := by
  constructor
  · exact get?_of_mem
  · intro h
    exact mem_of_find?_eq_some h

theorem sameBlocks_of_perm {w' : Workspace} (h : w.blocks.Perm w'.blocks) : w.SameBlocks w' := by
  intro id
  cases hget : w.get? id with
  | none =>
    have hid := not_mem_ids_of_get?_eq_none hget
    cases hget' : w'.get? id with
    | none => rfl
    | some block =>
      have hmem : block ∈ w.blocks := h.mem_iff.2 (mem_of_find?_eq_some hget')
      have hblock : block.id = id := id_of_get? hget'
      exact absurd (mem_map_of_mem hmem) (hblock ▸ hid)
  | some block =>
    have hmem : block ∈ w'.blocks := h.mem_iff.1 (mem_of_find?_eq_some hget)
    have hblock : block.id = id := id_of_get? hget
    rw [← hblock, get?_of_mem hmem]

theorem eq_of_id_eq (ha : a ∈ w.blocks) (hb : b ∈ w.blocks) (hid : a.id = b.id) : a = b :=
  inj_on_of_nodup_map w.distinct ha hb hid

namespace SameBlocks

variable {w w' : Workspace}

theorem refl (w : Workspace) : w.SameBlocks w := fun _ => rfl

variable (h : w.SameBlocks w')

include h

theorem perm : w.blocks.Perm w'.blocks := by
  refine (perm_ext_iff_of_nodup w.distinct.of_map w'.distinct.of_map).2 fun block => ?_
  rw [mem_blocks_iff, mem_blocks_iff, h]

theorem size_eq : w.size = w'.size := h.perm.length_eq

theorem block_eq (id : String) : w.block id = w'.block id := by
  unfold Workspace.block
  rw [h id]

theorem byId_eq : w.byId = w'.byId := by
  have hperm : w.byId.Perm w'.byId :=
    (mergeSort_perm _ _).trans (h.perm.trans (mergeSort_perm _ _).symm)
  refine hperm.eq_of_pairwise (fun a b ha hb hab hba => ?_) (pairwise_byId w) (pairwise_byId w')
  have ha' : a ∈ w.blocks := mem_mergeSort.1 ha
  have hb' : b ∈ w.blocks := mem_mergeSort.1 (hperm.mem_iff.2 hb)
  exact eq_of_id_eq ha' hb' (String.le_antisymm hab hba)

theorem roots_eq : w.roots = w'.roots := by
  have hperm : w.roots.Perm w'.roots :=
    (mergeSort_perm _ _).trans ((h.perm.filter _).trans (mergeSort_perm _ _).symm)
  have hmem : ∀ a ∈ w.roots, a ∈ w.blocks := fun a ha =>
    mem_of_mem_filter (mem_mergeSort.1 ha)
  refine hperm.eq_of_pairwise (fun a b ha hb hab hba => ?_) (pairwise_roots w) (pairwise_roots w')
  exact eq_of_id_eq (hmem a ha) (hmem b (hperm.mem_iff.2 hb)) (Block.id_eq_of_before hab hba)

/-! ## The forest -/

theorem visit_eq (steps : Nat) (seen pending : List String) :
    w.visit steps seen pending = w'.visit steps seen pending := by
  induction steps generalizing seen pending with
  | zero => cases pending <;> rfl
  | succ steps ih =>
    cases pending with
    | nil => rfl
    | cons id rest =>
      unfold visit
      rw [h.block_eq]
      simp only [ih]

theorem visitAll_eq (seen : List String) (roots : List Block) :
    w.visitAll seen roots = w'.visitAll seen roots := by
  induction roots generalizing seen with
  | nil => rfl
  | cons root rest ih =>
    unfold visitAll
    rw [h.size_eq, h.visit_eq]
    simp only [ih]

theorem validate_eq : w.validate = w'.validate := by
  unfold validate
  rw [h.roots_eq, h.visitAll_eq, h.byId_eq]

theorem chainFrom_eq (steps : Nat) (seen : List String)
    (start : Option String) : w.chainFrom steps seen start = w'.chainFrom steps seen start := by
  induction steps generalizing seen start with
  | zero => cases start <;> rfl
  | succ steps ih =>
    cases start with
    | none => rfl
    | some id =>
      unfold chainFrom
      rw [h.block_eq]
      simp only [ih]

theorem chain_eq (start : String) : w.chain start = w'.chain start := by
  unfold chain
  rw [h.size_eq, h.chainFrom_eq]

theorem parameters?_eq (procedure : String) :
    w.parameters? procedure = w'.parameters? procedure := by
  unfold parameters?
  rw [h.byId_eq]

/-! ## Static types -/

theorem inSocket_eq : inSocket w = inSocket w' := by
  funext typeOf block socket
  unfold inSocket
  simp only [h.block_eq]

theorem within_eq (table : TypeTable) (depth : Nat) :
    within w table depth = within w' table depth := by
  induction depth with
  | zero => rfl
  | succ depth ih =>
    funext block
    unfold within step StaticType.numericInSocket
    rw [ih, h.inSocket_eq]

theorem ofBlock_eq : ofBlock w = ofBlock w' := by
  funext table block
  unfold ofBlock
  rw [h.size_eq, h.within_eq]

theorem ofChild_eq : ofChild w = ofChild w' := by
  funext table block socket
  unfold ofChild
  rw [h.inSocket_eq, h.ofBlock_eq]

theorem ofSocket_eq : ofSocket w = ofSocket w' := by
  funext table block socket
  unfold ofSocket
  simp only [h.parameters?_eq]

/-- The order in which blocks are stored does not matter to inference. -/
theorem inferAll_eq (hnames : w.variableNames = w'.variableNames) : inferAll w = inferAll w' := by
  have hchildType : childType w = childType w' := by
    funext block socket
    unfold childType
    rw [h.ofChild_eq]
  have harguments : ∀ call index parameters,
      addArguments w call index parameters =
        addArguments w' call index parameters := by
    intro call index parameters
    induction parameters generalizing index with
    | nil => rfl
    | cons parameter rest ih =>
      unfold addArguments
      simp only [hchildType, ih]
  have hvalues : addValues w = addValues w' := by
    funext block
    unfold addValues
    simp only [hchildType, harguments, h.parameters?_eq]
  have hresult : addResult w = addResult w' := by
    funext block
    unfold addResult
    simp only [hchildType]
  unfold inferAll
  rw [h.byId_eq, hvalues, hresult, hnames]

end SameBlocks

end Workspace

end RobotBlocks
