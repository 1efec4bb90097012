import RobotBlocks.Proofs.Workspace.Linked

/-!
# Levels of blocks

A workspace is leveled if its blocks have numbers below the number of blocks that fall along every
link. A workspace that passes its check is leveled (`exists_leveled_of_validate`): the walk of the
check comes to a block before it comes to what hangs below it, and it comes to every block once, so
how many blocks the walk comes to after a block is such a number.

On a leveled workspace all links lead to blocks, and chains of statements come to an end
(`Leveled.chain_spec`).
-/

set_option autoImplicit false

namespace RobotBlocks

open List

variable {seen : List String} {steps : Nat}
variable {block : Block}

namespace Workspace

variable {w : Workspace}

/-- The numbers of blocks fall along links, which all lead to blocks. -/
structure Leveled (w : Workspace) (level : String → Nat) : Prop where
  lt_size (block : Block) : block ∈ w.blocks → level block.id < w.size
  below (block : Block) : block ∈ w.blocks → ∀ id ∈ block.below,
    ∃ child ∈ w.blocks, child.id = id ∧ level id < level block.id

/-! ## The walk of the check -/

/-- What hangs below a visited block was visited after it or is still to visit. The blocks visited
last come first. -/
def Settled (w : Workspace) (seen pending : List String) : Prop :=
  ∀ later id earlier, seen = later ++ id :: earlier →
    ∃ block ∈ w.blocks, block.id = id ∧ ∀ child ∈ block.below, child ∈ later ∨ child ∈ pending

theorem settled_nil (w : Workspace) (pending : List String) : w.Settled [] pending := by
  intro later id earlier h
  simp at h

variable {pending : List String}

theorem Settled.mono {pending' : List String} (h : w.Settled seen pending)
    (hsub : ∀ id ∈ pending, id ∈ pending') : w.Settled seen pending' := by
  intro later id earlier hseen
  obtain ⟨block, hblock, hid, hbelow⟩ := h later id earlier hseen
  refine ⟨block, hblock, hid, fun child hchild => ?_⟩
  exact (hbelow child hchild).imp_right (hsub child)

/-- A walk may go on from a block to what hangs below it. -/
theorem Settled.cons (h : w.Settled seen (block.id :: pending)) (hblock : block ∈ w.blocks) :
    w.Settled (block.id :: seen) (block.below ++ pending) := by
  intro later id earlier hseen
  cases later with
  | nil =>
    cases hseen
    exact ⟨block, hblock, rfl, fun child hchild => .inr (mem_append_left _ hchild)⟩
  | cons first later =>
    obtain ⟨rfl, hrest⟩ : block.id = first ∧ seen = later ++ id :: earlier := by simpa using hseen
    obtain ⟨other, hother, hid, hbelow⟩ := h later id earlier hrest
    refine ⟨other, hother, hid, fun child hchild => ?_⟩
    rcases hbelow child hchild with hlater | hpending
    · exact .inl (mem_cons_of_mem _ hlater)
    · rcases mem_cons.1 hpending with rfl | hpending
      · exact .inl mem_cons_self
      · exact .inr (mem_append_right _ hpending)

variable {seen' : List String}

theorem settled_visit (h : w.visit steps seen pending = .ok seen')
    (hsettled : w.Settled seen pending) : w.Settled seen' [] :=
  visit_induction h hsettled fun _ _ _ hblock _ hseen => hseen.cons hblock

theorem settled_visitAll {roots : List Block} (h : w.visitAll seen roots = .ok seen')
    (hsettled : w.Settled seen []) : w.Settled seen' [] := by
  induction roots generalizing seen with
  | nil =>
    obtain rfl : seen = seen' := by simpa [visitAll] using h
    exact hsettled
  | cons root rest ih =>
    unfold visitAll at h
    obtain ⟨between, hvisit, h⟩ := Known.bind_eq_ok_iff.1 h
    exact ih h (settled_visit hvisit (hsettled.mono (by simp)))

/-- What stands before an entry of a list without repetitions has a smaller index. -/
theorem idxOf_lt_idxOf_of_mem {ids later earlier : List String} {id child : String}
    (hnodup : ids.Nodup) (hids : ids = later ++ id :: earlier) (hchild : child ∈ later) :
    ids.idxOf child < ids.idxOf id := by
  subst hids
  have hid : id ∉ later := by
    intro hmem
    exact (nodup_append.1 hnodup).2.2 id hmem id mem_cons_self rfl
  rw [idxOf_append_of_mem hchild, idxOf_append_of_notMem hid, idxOf_cons_self]
  exact Nat.lt_add_right _ (idxOf_lt_length_of_mem hchild)

/-- The blocks of a valid workspace have levels that fall along its links. -/
theorem exists_leveled_of_validate (h : w.validate = .ok ()) : ∃ level, w.Leveled level := by
  obtain ⟨visited, hvisit, hperm, -⟩ := exists_visited_of_validate h
  have hsettled := settled_visitAll hvisit (w.settled_nil [])
  have hnodup : (visited.map Block.id).reverse.Nodup := by
    rw [nodup_reverse, (hperm.map _).nodup_iff]
    exact w.distinct
  have hlength : (visited.map Block.id).reverse.length = w.size := by
    simpa [size] using hperm.length_eq
  have hmem : ∀ block ∈ w.blocks, block.id ∈ (visited.map Block.id).reverse := by
    intro block hblock
    exact mem_reverse.2 (mem_map_of_mem (hperm.mem_iff.2 hblock))
  refine ⟨fun id => (visited.map Block.id).reverse.idxOf id, fun block hblock => ?_,
    fun block hblock id hid => ?_⟩
  · rw [← hlength]
    exact idxOf_lt_length_of_mem (hmem block hblock)
  · obtain ⟨later, earlier, hseen⟩ := append_of_mem (hmem block hblock)
    obtain ⟨found, hfound, hfoundId, hbelow⟩ := hsettled later block.id earlier hseen
    obtain rfl : found = block := inj_on_of_nodup_map w.distinct hfound hblock hfoundId
    have hlater : id ∈ later := by simpa using hbelow id hid
    have hidMem : id ∈ (visited.map Block.id).reverse := by
      rw [hseen]
      exact mem_append_left _ hlater
    obtain ⟨later', earlier', hseen'⟩ := append_of_mem hidMem
    obtain ⟨child, hchild, hchildId, -⟩ := hsettled later' id earlier' hseen'
    exact ⟨child, hchild, hchildId, idxOf_lt_idxOf_of_mem hnodup hseen hlater⟩

end Workspace

/-! ## Links of leveled workspaces -/

namespace Block

variable {block : Block} {name id : String}

theorem mem_below_of_value (h : block.values.get? name = some id) : id ∈ block.below := by
  have hvalues : id ∈ block.values.values :=
    mem_map.2 ⟨(name, id), Dict.mem_entries_iff.2 h, rfl⟩
  unfold below
  exact mem_append_right _ (mem_reverse.2 hvalues)

theorem mem_below_of_statement (h : block.statements.get? name = some id) : id ∈ block.below := by
  have hvalues : id ∈ block.statements.values :=
    mem_map.2 ⟨(name, id), Dict.mem_entries_iff.2 h, rfl⟩
  unfold below
  exact mem_append_left _ (mem_append_right _ (mem_reverse.2 hvalues))

theorem mem_below_of_next (h : block.next = some id) : id ∈ block.below := by
  unfold below
  rw [h]
  exact mem_append_left _ (mem_append_left _ (mem_singleton.2 rfl))

end Block

variable {start : Option String}

namespace Workspace

theorem chainFrom_none (w : Workspace) (steps : Nat) (seen : List String) :
    w.chainFrom steps seen none = ([], none) := by
  cases steps <;> rfl

theorem chainFrom_succ {w : Workspace} (hblock : block ∈ w.blocks) (hnew : block.id ∉ seen) :
    w.chainFrom (steps + 1) seen (some block.id) =
      (block :: (w.chainFrom steps (block.id :: seen) block.next).1,
        (w.chainFrom steps (block.id :: seen) block.next).2) := by
  have hfound : w.block block.id = .ok block := by
    unfold Workspace.block
    rw [get?_of_mem hblock]
  rw [chainFrom, hfound]
  simp [hnew]

theorem mem_of_mem_chainFrom {w : Workspace} {member : Block}
    (h : member ∈ (w.chainFrom steps seen start).1) : member ∈ w.blocks := by
  induction steps generalizing seen start with
  | zero =>
    cases start <;> simp [chainFrom] at h
  | succ steps ih =>
    cases start with
    | none => simp [chainFrom] at h
    | some id =>
      rw [chainFrom] at h
      split at h
      · simp at h
      · cases hblock : w.block id with
        | error fault => simp [hblock] at h
        | ok block =>
          simp only [hblock, mem_cons] at h
          rcases h with rfl | h
          · exact (mem_of_block_eq_ok hblock).1
          · exact ih h

end Workspace

namespace Workspace.Leveled

variable {w : Workspace} {level : String → Nat}
variable {block : Block}

theorem exists_child (h : w.Leveled level) (hblock : block ∈ w.blocks) {id : String}
    (hid : id ∈ block.below) :
    ∃ child ∈ w.blocks, w.get? id = some child ∧ level child.id < level block.id := by
  obtain ⟨child, hchild, rfl, hlevel⟩ := h.below block hblock id hid
  exact ⟨child, hchild, get?_of_mem hchild, hlevel⟩

/-- A chain that goes on from blocks of higher levels comes to its end. -/
theorem chainFrom_spec (h : w.Leveled level) (hblock : block ∈ w.blocks)
    (hsteps : level block.id < steps) (hseen : ∀ id ∈ seen, level block.id < level id) :
    (w.chainFrom steps seen (some block.id)).2 = none ∧
      ∀ member ∈ (w.chainFrom steps seen (some block.id)).1,
        member ∈ w.blocks ∧ level member.id ≤ level block.id := by
  induction steps generalizing block seen with
  | zero => omega
  | succ steps ih =>
    have hnew : block.id ∉ seen := fun hmem => Nat.lt_irrefl _ (hseen block.id hmem)
    rw [chainFrom_succ hblock hnew]
    cases hnext : block.next with
    | none =>
      rw [chainFrom_none]
      refine ⟨rfl, fun member hmember => ?_⟩
      obtain rfl : member = block := by simpa using hmember
      exact ⟨hblock, Nat.le_refl _⟩
    | some id =>
      obtain ⟨child, hchild, hget, hlevel⟩ := h.exists_child hblock (Block.mem_below_of_next hnext)
      obtain rfl := id_of_get? hget
      have hhigher : ∀ id ∈ block.id :: seen, level child.id < level id := by
        intro id hid
        rcases mem_cons.1 hid with rfl | hid
        · exact hlevel
        · exact Nat.lt_trans hlevel (hseen id hid)
      obtain ⟨hend, hmembers⟩ := ih hchild (by omega) hhigher
      refine ⟨hend, fun member hmember => ?_⟩
      rcases mem_cons.1 hmember with rfl | hmember
      · exact ⟨hblock, Nat.le_refl _⟩
      · obtain ⟨hmem, hle⟩ := hmembers member hmember
        exact ⟨hmem, by omega⟩

theorem chain_spec (h : w.Leveled level) (hblock : block ∈ w.blocks) :
    (w.chain block.id).2 = none ∧
      ∀ member ∈ (w.chain block.id).1, member ∈ w.blocks ∧ level member.id ≤ level block.id := by
  have hlevel := h.lt_size block hblock
  exact h.chainFrom_spec hblock (by omega) (by simp)

end Workspace.Leveled

/-! ## The links to the next blocks -/

namespace Workspace

/-- The blocks that follow one another by their links to the next ones. -/
inductive NextChain (w : Workspace) : Option String → List Block → Prop
  | done : NextChain w none []
  | link {id : String} {block : Block} {rest : List Block} :
      w.get? id = some block → NextChain w block.next rest → NextChain w (some id) (block :: rest)

variable {w w' : Workspace}

/-- A chain without a fault is made of the blocks along the next links. -/
theorem nextChain_chainFrom (h : (w.chainFrom steps seen start).2 = none) :
    w.NextChain start (w.chainFrom steps seen start).1 := by
  induction steps generalizing seen start with
  | zero =>
    cases start with
    | none => exact .done
    | some id => cases h
  | succ steps ih =>
    cases start with
    | none => exact .done
    | some id =>
      rw [Workspace.chainFrom] at h ⊢
      split at h
      · cases h
      · rename_i hnew
        rw [if_neg hnew]
        cases hblock : w.block id with
        | error fault =>
          rw [hblock] at h
          cases h
        | ok block =>
          rw [hblock] at h
          obtain ⟨hmem, rfl⟩ := mem_of_block_eq_ok hblock
          exact .link (get?_of_mem hmem) (ih h)

theorem nextChain_chain (hvalid : w.validate = .ok ()) (hblock : block ∈ w.blocks) :
    w.NextChain (some block.id) (w.chain block.id).1 := by
  obtain ⟨level, hlevel⟩ := exists_leveled_of_validate hvalid
  exact nextChain_chainFrom (hlevel.chain_spec hblock).1

/-- Two workspaces have related blocks under an identity. -/
def Paired (w w' : Workspace) (R : Block → Block → Prop) (id : String) : Prop :=
  ∃ block block', w.get? id = some block ∧ w'.get? id = some block' ∧ R block block'

/-- The chains of related blocks go on in step if what comes after such blocks is related again. -/
theorem NextChain.forall₂ {R : Block → Block → Prop} (hnext : ∀ block block', R block block' →
      block'.next = block.next ∧ ∀ id, block.next = some id → w.Paired w' R id)
    {chain chain' : List Block} (h : w.NextChain start chain) (h' : w'.NextChain start chain')
    (hstart : ∀ id, start = some id → w.Paired w' R id) : List.Forall₂ R chain chain' := by
  induction h generalizing chain' with
  | done =>
    cases h'
    exact .nil
  | @link id block rest hget _ ih =>
    cases h' with
    | @link _ block' rest' hget' hrest' =>
      obtain ⟨found, found', hfound, hfound', hrelated⟩ := hstart id rfl
      obtain rfl := Option.some.inj (hget.symm.trans hfound)
      obtain rfl := Option.some.inj (hget'.symm.trans hfound')
      obtain ⟨hsame, hmore⟩ := hnext block block' hrelated
      exact .cons hrelated (ih (hsame ▸ hrest') hmore)

end Workspace

/-! ## A leveled workspace -/

namespace RepeatSample

def loop : Block :=
  { id := "a", typeName := "controls_repeat_ext", kind := .controlsRepeat
    statements := Dict.ofList [("DO", "b")] }

def assignment : Block :=
  { id := "b", typeName := "variables_set", kind := .variablesSet
    fields := Dict.ofList [("VAR", "x")], values := Dict.ofList [("VALUE", "c")]
    parent := some (.statement "a" "DO") }

def number : Block :=
  { id := "c", typeName := "math_number", kind := .mathNumber
    fields := Dict.ofList [("NUM", "3")], parent := some (.value "b" "VALUE") }

def workspace : Workspace where
  blocks := [loop, assignment, number]
  variableNames := ["x"]
  distinct := by decide

theorem validate_workspace : workspace.validate = .ok () := by
  rw [Workspace.validate_of_sorted (by decide) (by decide)]
  decide

end RepeatSample

end RobotBlocks
