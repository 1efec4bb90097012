import RobotBlocks.Proofs.Program.Refinement
import RobotBlocks.Proofs.Workspace.LostBranches

/-!
# Faults of linking

Loading links every block that it enters, and it checks the links at the end. Of the faults that
linking can have, one only is ever met. A block is linked as soon as all that is below it is loaded: at
that time it hangs nowhere, and its parent is there, with nothing after it yet
(`failsOnly_load`). So no connection fails.

What can go wrong is that two holders of a block element name the same socket or slot. The second
connection takes the place of the first, and what the first one holds is lost. The check then reports
the lost blocks, and it reports nothing else (`linking_fails_by_repeated_holders`).
-/

set_option autoImplicit false

namespace RobotBlocks

open List BlockTree Loader
open Program (ofRoot)

open RobotBlocks.Xml (Element)

variable {fault : Fault}

/-- A fault in how blocks are linked, other than that some are not reached. -/
def Fault.OfLinks : Fault → Prop
  | linkedTwice .. | nextTaken _ | reachableTwice _ | unknownBlock _ => True
  | _ => False

/-- A fault in what a document says about one block. -/
def Fault.OfBlock : Fault → Prop
  | noType _ | unknownType .. | badMutation .. | noMutation .. | missingField .. => True
  | _ => False

/-- A fault that a document can have when it is loaded. -/
def Fault.OfLoading : Fault → Prop
  | malformedBlocks | malformedRegistration | wrongRoot _ | unknownFlavor _ | noType _ | unknownType ..
  | badMutation .. | noMutation .. | missingField .. | duplicateBlock _ | unreachable _ => True
  | _ => False

theorem Fault.OfBlock.ofLoading (h : fault.OfBlock) : fault.OfLoading := by
  cases fault <;> first | exact trivial | exact h

theorem Fault.OfLoading.not_ofLinks (h : fault.OfLoading) : ¬ fault.OfLinks := by
  cases fault <;> first | exact not_false | exact fun _ => h

variable {m : Loading} {root : Element}

namespace Loader

variable {parent : Block} {s t : Loading} {fault : Fault}

/-! ## One block -/

/-- The block of a source can only be wrong in itself. -/
theorem failsOnly_blockOf (source : BlockSource) : FailsOnly Fault.OfBlock (blockOf source) := by
  have hidentity : FailsOnly Fault.OfBlock (identity source.attributes) := by
    unfold identity
    split
    · exact .pure _
    · exact .of_sure (Sure.get.bind fun _ => (Sure.modify _).bind fun _ => Sure.pure _)
  have hkind : ∀ id, FailsOnly Fault.OfBlock (liftM (kindOf id source.attributes) : Loader _) := by
    intro id
    refine .liftM fun fault hfault => ?_
    unfold kindOf at hfault
    split at hfault
    · cases hfault
      exact trivial
    · split at hfault
      · cases hfault
        exact trivial
      · cases hfault
  have hmutation : ∀ id typeName kind,
      FailsOnly Fault.OfBlock (mutationOf id typeName kind source) := by
    intro id typeName kind
    unfold mutationOf
    split
    · split
      · split
        · exact .pure _
        · exact .throw trivial
      · exact (FailsOnly.modify _).bind fun _ _ _ _ => .pure _
    · split
      · exact .throw trivial
      · exact .pure _
  unfold blockOf
  refine hidentity.bind fun _ id _ _ => (hkind id).bind fun _ stated _ _ => ?_
  refine (FailsOnly.of_sure (Sure.forM _ fun _ _ => Sure.modify _)).bind fun _ _ _ _ => ?_
  exact (hmutation id stated.1 stated.2).bind fun _ _ _ _ => .pure _

theorem failsOnly_declareVariableOf (block : Block) :
    FailsOnly Fault.OfBlock (declareVariableOf block) := by
  have hname : FailsOnly Fault.OfBlock (do
      let name ← block.requiredField "VAR"
      modify fun state => { state with workspace := state.workspace.declareVariable name } :
        Loader Unit) := by
    refine FailsOnly.bind (.liftM fun fault hfault => ?_) fun _ _ _ _ => .modify _
    unfold Block.requiredField at hfault
    split at hfault
    · cases hfault
    · cases hfault
      exact trivial
  unfold declareVariableOf
  split
  · exact hname
  · exact hname
  · exact .pure _

theorem failsOnly_enter (source : BlockSource) : FailsOnly Fault.OfLoading (enter source) := by
  have hinsert : ∀ (w : Workspace) (block : Block),
      FailsOnly Fault.OfLoading (liftM (w.insert block) : Loader Workspace) := by
    intro w block
    refine .liftM fun fault hfault => ?_
    unfold Workspace.insert at hfault
    split at hfault
    · cases hfault
      exact trivial
    · cases hfault
  unfold enter
  refine ((failsOnly_blockOf source).mono fun _ => Fault.OfBlock.ofLoading).bind fun _ block _ _ =>
    ((failsOnly_declareVariableOf block).mono fun _ => Fault.OfBlock.ofLoading).bind fun _ _ _ _ => ?_
  refine FailsOnly.get.bind fun _ state _ _ => (hinsert _ block).bind fun _ _ _ _ => ?_
  exact (FailsOnly.modify _).bind fun _ _ _ _ => .pure _

/-! ## Connections -/

variable {w : Workspace}

theorem connect_of_ok {adopted entered : Workspace} {child : String} {link : Link}
    {enter : Workspace → Block → Except Fault Workspace}
    (hadopt : w.adopt child link = .ok adopted) (hparent : adopted.block link.parent = .ok parent)
    (henter : enter adopted parent = .ok entered) :
    w.connect child link enter = (.ok (), entered) := by
  unfold Workspace.connect
  simp only [hadopt, hparent, henter]

/-- A block that hangs nowhere can be connected to a block that is there, and after it if nothing is
there yet. -/
theorem exists_connectAt {parent child : Block} (position : Position) (hchild : child ∈ w.blocks)
    (hfree : child.parent = none) (hparent : parent ∈ w.blocks)
    (hopen : position = .next → parent.next = none) :
    ∃ w', w.connectAt parent.id position child.id = (.ok (), w') := by
  have hadopt : w.adopt child.id (position.link parent.id) =
      .ok (w.setParent child.id (position.link parent.id)) := by
    unfold Workspace.adopt Workspace.block
    rw [Workspace.get?_of_mem hchild]
    simp only [bind, Except.bind, hfree]
  -- adopting the child changes no other link of its parent, even if it is its own
  have hfound : ∃ found, (w.setParent child.id (position.link parent.id)).get? parent.id =
      some found ∧ found.next = parent.next := by
    rw [Workspace.get?_setParent, Workspace.get?_of_mem hparent]
    by_cases hsame : parent.id = child.id
    · rw [if_pos hsame]
      exact ⟨_, rfl, rfl⟩
    · rw [if_neg hsame]
      exact ⟨parent, rfl, rfl⟩
  obtain ⟨found, hget, hnext⟩ := hfound
  have hblock : (w.setParent child.id (position.link parent.id)).block
      (position.link parent.id).parent = .ok found := by
    unfold Workspace.block
    rw [Position.parent_link, hget]
  cases position with
  | value socket =>
    rw [Workspace.connectAt, Workspace.connectValue]
    exact ⟨_, connect_of_ok hadopt hblock rfl⟩
  | statement slot =>
    rw [Workspace.connectAt, Workspace.connectStatement]
    exact ⟨_, connect_of_ok hadopt hblock rfl⟩
  | next =>
    rw [Workspace.connectAt, Workspace.connectNext]
    refine ⟨_, connect_of_ok hadopt hblock (if_neg ?_)⟩
    rw [hnext, hopen rfl]
    exact Bool.false_ne_true

theorem not_fails_connect {operation : Workspace → Except Fault Unit × Workspace}
    (h : operation s.workspace = (.ok (), w)) : ¬ Fails (connect operation) s fault t := by
  unfold connect
  simp [h]

theorem not_fails_note (parent : Block) (position : Position) :
    ¬ Fails (note parent position) s fault t := by
  unfold note
  split
  · split
    · exact fails_modify
    · exact fails_pure
  · exact fails_pure

/-- A tree that was loaded can be connected to a block that was there before. -/
theorem TreeLoaded.not_fails_connect {source : BlockTree BlockSource} {s t : Loading}
    {child : String} (h : TreeLoaded source s child m) (position : Position)
    (hparent : parent ∈ s.workspace.blocks) (hopen : position = .next → parent.next = none) :
    ¬ Fails (connect (fun w => w.connectAt parent.id position child)) m fault t := by
  obtain ⟨tree, -, hbare, rfl, -, hblocks⟩ := h
  have hroot : (tree.label.hangAll tree.children).hungAt none ∈ m.workspace.blocks := by
    rw [hblocks]
    exact mem_append_right _ (tree.root_mem_linked none)
  have hparent' : parent ∈ m.workspace.blocks := by
    rw [hblocks]
    exact mem_append_left _ hparent
  obtain ⟨w, hconnected⟩ := exists_connectAt position hroot rfl hparent' hopen
  rw [Block.id_hungAt, Block.id_hangAll] at hconnected
  exact Loader.not_fails_connect hconnected

theorem positions_numberAll (sources : Branches BlockSource) (generated : Nat) :
    (BlockTree.numberAll sources generated).1.map Prod.fst = sources.map Prod.fst := by
  induction sources generalizing generated with
  | nil => rfl
  | cons source rest ih =>
    obtain ⟨position, tree⟩ := source
    rw [BlockTree.numberAll, map_cons, map_cons, ih]

/-- A block whose branches are loaded stays, and what comes after it stays unless a branch does. -/
theorem BranchesLoaded.exists_parent {sources : Branches BlockSource}
    (h : BranchesLoaded parent.id sources s t) (hparent : parent ∈ s.workspace.blocks) :
    ∃ block ∈ t.workspace.blocks, block.id = parent.id ∧
      (Position.next ∉ sources.map Prod.fst → block.next = parent.next) := by
  obtain ⟨branches, hnumber, -, -, hblocks⟩ := h
  obtain ⟨front, back, hs⟩ := append_of_mem hparent
  have ht := hblocks front parent back hs rfl
  refine ⟨_, ht ▸ mem_append_right _ mem_cons_self, by simp, fun hnext => ?_⟩
  have hpositions : branches.map Prod.fst = sources.map Prod.fst := by
    have hmapped := positions_numberAll sources s.generated
    rw [hnumber, mapAll_eq, map_map] at hmapped
    exact hmapped
  rcases Block.branch?_hangAll_cases parent
      (branches.map (fun branch => (branch.1, branch.2.label.id))) .next with
    ⟨-, hsame⟩ | ⟨id, hid, -⟩
  · exact hsame
  · obtain ⟨branch, hbranch, hpair⟩ := mem_map.1 hid
    have hposition : branch.1 = .next := congrArg Prod.fst hpair
    rw [← hpositions] at hnext
    exact absurd (mem_map.2 ⟨branch, hbranch, hposition⟩) hnext

/-! ## Trees -/

/-- Among the branches of a sketch at most one comes next. -/
theorem pairwise_branches (sketch : Sketch) :
    sketch.branches.Pairwise (fun branch other => branch.1 = .next → other.1 ≠ .next) := by
  obtain ⟨source, values, statements, next⟩ := sketch
  have hfront : ∀ branch ∈ values.map (fun entry => (Position.value entry.1, entry.2)) ++
      statements.map (fun entry => (Position.statement entry.1, entry.2)), branch.1 ≠ .next := by
    simp only [mem_append, mem_map]
    rintro _ (⟨_, _, rfl⟩ | ⟨_, _, rfl⟩) <;> exact Position.noConfusion
  refine pairwise_append.2 ⟨pairwise_of_forall_mem_list ?_, ?_, ?_⟩
  · exact fun branch hbranch _ _ hnext => absurd hnext (hfront branch hbranch)
  · cases next <;> simp
  · exact fun branch hbranch _ _ hnext => absurd hnext (hfront branch hbranch)

/-- Attaching branches fails in loading one of them. The block is there all the time, under `held` the
first time, and nothing comes after it until the branch that does. -/
theorem ofLoading_of_fails_forM_attach {branches : List (Position × Sketch)} {held : Block}
    (hload : ∀ branch ∈ branches, FailsOnly Fault.OfLoading (load branch.2))
    (honce : branches.Pairwise (fun branch other => branch.1 = .next → other.1 ≠ .next))
    (hheld : held ∈ s.workspace.blocks) (hid : held.id = parent.id)
    (hopen : (∃ branch ∈ branches, branch.1 = .next) → held.next = none)
    (h : Fails (forM branches (attach parent)) s fault t) : fault.OfLoading := by
  induction branches generalizing s held with
  | nil => exact absurd h fails_pure
  | cons branch rest ih =>
    obtain ⟨hfirst, honce⟩ := pairwise_cons.1 honce
    rw [forM_cons] at h
    rcases fails_bind.1 h with h | ⟨_, m, hattach, h⟩
    · unfold attach at h
      rcases fails_bind.1 h with h | ⟨child, m₁, hchild, h⟩
      · exact hload branch mem_cons_self s fault t h
      rcases fails_bind.1 h with h | ⟨_, m₂, hnote, h⟩
      · exact absurd h (not_fails_note parent branch.1)
      obtain ⟨hworkspace, hgenerated⟩ := yields_note hnote
      have hloaded : TreeLoaded branch.2.tree s child m₂ := by
        rw [TreeLoaded, hworkspace, hgenerated]
        exact yields_load branch.2 hchild
      rw [← hid] at h
      exact absurd h (hloaded.not_fails_connect branch.1 hheld fun hnext =>
        hopen ⟨branch, mem_cons_self, hnext⟩)
    · have hbranch := yields_attach (yields_load branch.2) hattach
      rw [← hid] at hbranch
      obtain ⟨held', hheld', hid', hnext⟩ := hbranch.exists_parent hheld
      refine ih (forall_mem_cons.1 hload).2 honce hheld' (hid'.trans hid) ?_ h
      rintro ⟨other, hother, hlast⟩
      rw [hnext]
      · exact hopen ⟨other, mem_cons_of_mem _ hother, hlast⟩
      · simpa using fun hthis => hfirst other hother hthis.symm hlast

theorem failsOnly_load (sketch : Sketch) : FailsOnly Fault.OfLoading (load sketch) := by
  induction sketch using Sketch.ind with
  | mk sketch ih =>
    intro s fault t h
    rw [load_eq] at h
    rcases fails_bind.1 h with h | ⟨block, m, henter, h⟩
    · exact failsOnly_enter sketch.source s fault t h
    obtain ⟨hbare, -, -, hblocks, -⟩ := yields_enter henter
    have hblock : block ∈ m.workspace.blocks := by
      rw [hblocks]
      exact mem_append_right _ mem_cons_self
    rcases fails_bind.1 h with h | ⟨_, _, -, h⟩
    · exact ofLoading_of_fails_forM_attach ih
        (pairwise_branches sketch) hblock rfl (fun _ => hbare.next) h
    · exact absurd h fails_pure

/-! ## Documents -/

theorem failsOnly_loadElement (element : Element) : FailsOnly Fault.OfLoading (loadElement element) := by
  unfold loadElement
  split
  · exact (failsOnly_load _).bind fun _ _ _ _ => .pure _
  · split <;> exact .modify _

theorem fails_loadWorkspace :
    Fails (loadWorkspace root) s fault t ↔
      Fails (forM root.children loadElement) s fault t ∨
        Yields (forM root.children loadElement) s () t ∧ t.workspace.validate = .error fault := by
  unfold loadWorkspace
  simp only [forM_eq_forM, fails_bind, yields_get, fails_get, fails_liftM, yields_liftM,
    fails_pure, false_or]
  constructor
  · rintro (h | ⟨_, m, hload, _, _, ⟨rfl, rfl⟩, ⟨hfault, rfl⟩ | ⟨_, _, -, h | ⟨_, _, -, h⟩⟩⟩)
    · exact .inl h
    · exact .inr ⟨hload, hfault⟩
    · exact absurd h fails_modify
    · exact absurd h id
  · rintro (h | ⟨hload, hfault⟩)
    · exact .inl h
    · exact .inr ⟨(), t, hload, t, t, ⟨rfl, rfl⟩, .inl ⟨hfault, rfl⟩⟩

end Loader

/-! ## Programs -/

variable {element : Element}

theorem eq_unknownFlavor_of_update {registration : Registration}
    (h : registration.update element = .error fault) : ∃ flavor, fault = .unknownFlavor flavor := by
  unfold Registration.update at h
  split at h
  · cases hflavor : element.attributes.get? "flavor" with
    | none => simp [hflavor, bind, Except.bind, pure, Except.pure] at h
    | some name =>
      cases hfound : Registration.flavorOf name with
      | ok flavor => simp [hflavor, hfound, bind, Except.bind, pure, Except.pure] at h
      | error found =>
        simp only [hflavor, hfound, bind, Except.bind, Except.error.injEq] at h
        subst h
        unfold Registration.flavorOf at hfound
        split at hfound
        · cases hfound
        · cases hfound
        · cases hfound
          exact ⟨name, rfl⟩
  · split at h <;> cases h

/-- The faults of reading a registration. -/
theorem eq_of_readRegistration_eq_error {text : String}
    (h : Program.readRegistration text = .error fault) :
    fault = .malformedRegistration ∨ ∃ flavor, fault = .unknownFlavor flavor := by
  have hfold : ∀ (elements : List Element) (registration : Registration),
      elements.foldlM Registration.update registration = .error fault →
        ∃ flavor, fault = .unknownFlavor flavor := by
    intro elements
    induction elements with
    | nil =>
      intro registration hfault
      cases hfault
    | cons element rest ih =>
      intro registration hfault
      rw [foldlM_cons] at hfault
      cases hupdate : registration.update element with
      | error found =>
        rw [hupdate] at hfault
        cases hfault
        exact eq_unknownFlavor_of_update hupdate
      | ok updated =>
        rw [hupdate] at hfault
        exact ih updated hfault
  unfold Program.readRegistration at h
  split at h
  · cases h
    exact .inl rfl
  · exact .inr (hfold _ _ h)

/-- A document of blocks fails in its registration or in its blocks. -/
theorem fails_ofRoot {document : Option String} {s t : Loading} (hname : root.name = "xml") :
    Fails (ofRoot root document) s fault t ↔
      (∃ text ∈ document, Program.readRegistration text = .error fault ∧ s = t) ∨
        (∀ text ∈ document, Known (Program.readRegistration text)) ∧
          Fails (Loader.loadWorkspace root) s fault t := by
  have hload : ∀ registration : Registration, Fails (do
      let workspace ← Loader.loadWorkspace root
      return { workspace, registration } : Loader Program) s fault t ↔
        Fails (Loader.loadWorkspace root) s fault t := by
    intro registration
    rw [fails_bind]
    simp only [fails_pure, and_false, exists_false, or_false]
  unfold ofRoot
  cases document with
  | none =>
    simp only [hname, ne_eq, not_true_eq_false, ↓reduceIte, pure_bind, hload]
    simp
  | some text =>
    simp only [hname, ne_eq, not_true_eq_false, ↓reduceIte, fails_bind (x := liftM _), fails_liftM,
      yields_liftM]
    constructor
    · rintro (⟨hfault, rfl⟩ | ⟨registration, m, ⟨hread, rfl⟩, h⟩)
      · exact .inl ⟨text, rfl, hfault, rfl⟩
      · refine .inr ⟨?_, (hload registration).1 h⟩
        rintro _ ⟨⟩
        exact ⟨registration, hread⟩
    · rintro (⟨_, ⟨⟩, hfault, rfl⟩ | ⟨hread, h⟩)
      · exact .inl ⟨hfault, rfl⟩
      · obtain ⟨registration, hregistration⟩ := hread text rfl
        exact .inr ⟨registration, s, ⟨hregistration, rfl⟩, (hload registration).2 h⟩

/-- The check after loading finds the blocks that are lost in the document, and nothing else. -/
theorem validate_cases_of_loaded (h : Yields (forM root.children Loader.loadElement) {} () m) :
    (m.workspace.validate = .ok () ∧ root.forest.flatMap BlockTree.lost = []) ∨
      ∃ ids, m.workspace.validate = .error (.unreachable ids) ∧
        root.forest.flatMap BlockTree.lost ≠ [] ∧ ids.Pairwise (· < ·) ∧
        ∀ id, id ∈ ids ↔ id ∈ (root.forest.flatMap BlockTree.lost).map Label.id := by
  obtain ⟨forest, hnumber, hbare, -, hblocks⟩ := yields_forM_loadElement h
  have hlists : m.workspace.Lists forest := by simpa [Workspace.Lists] using hblocks
  have hbareNodes : ∀ subtree ∈ forest.flatMap BlockTree.subtrees, subtree.label.Bare := by
    intro subtree hsubtree
    obtain ⟨tree, htree, hmem⟩ := mem_flatMap.1 hsubtree
    exact hbare tree htree _ (mem_map_of_mem hmem)
  have hforest : root.forest = forest.map (BlockTree.map Block.label) := congrArg Prod.fst hnumber
  have hlost : root.forest.flatMap BlockTree.lost =
      (forest.flatMap BlockTree.lost).map Block.label := by
    rw [hforest, flatMap_map, map_flatMap]
    exact flatMap_congr fun tree _ => lost_map Block.label tree
  have hids : (root.forest.flatMap BlockTree.lost).map Label.id =
      (forest.flatMap BlockTree.lost).map Block.id := by
    rw [hlost, map_map]
    rfl
  have hnil : root.forest.flatMap BlockTree.lost = [] ↔ forest.flatMap BlockTree.lost = [] := by
    rw [hlost, map_eq_nil_iff]
  rw [hids, ne_eq, hnil]
  exact Workspace.validate_cases_of_lists hlists hbareNodes

/-! ## Repeated holders -/

namespace BlockTree

variable {α : Type}

/-- The positions of the branches of each node. -/
def shape (tree : BlockTree α) : List (List Position) :=
  tree.subtrees.map (fun subtree => subtree.branches.map Prod.fst)

theorem shape_node (label : α) (branches : Branches α) :
    (node label branches).shape =
      branches.map Prod.fst :: branches.flatMap (fun branch => branch.2.shape) := by
  unfold shape
  rw [subtrees_node, map_cons, branches_node, flatMap_map, map_flatMap]

theorem flatMap_shape_numberAll {branches : Branches BlockSource}
    (h : ∀ branch ∈ branches, ∀ generated,
      (branch.2.number generated).1.shape = branch.2.shape) (generated : Nat) :
    (numberAll branches generated).1.flatMap (fun branch => branch.2.shape) =
      branches.flatMap (fun branch => branch.2.shape) := by
  induction branches generalizing generated with
  | nil => rfl
  | cons branch rest ih =>
    obtain ⟨position, tree⟩ := branch
    rw [numberAll, flatMap_cons, flatMap_cons, h (position, tree) mem_cons_self,
      ih (forall_mem_cons.1 h).2]

theorem shape_number (tree : BlockTree BlockSource) (generated : Nat) :
    (tree.number generated).1.shape = tree.shape := by
  induction tree using ind generalizing generated with
  | node source branches ih =>
    rw [number, shape_node, shape_node, positions_numberAll, flatMap_shape_numberAll ih]

theorem flatMap_shape_numberForest (trees : List (BlockTree BlockSource)) (generated : Nat) :
    (numberForest trees generated).1.flatMap shape = trees.flatMap shape := by
  induction trees generalizing generated with
  | nil => rfl
  | cons tree rest ih =>
    rw [numberForest, flatMap_cons, flatMap_cons, shape_number, ih]

theorem flatMap_lost_eq_nil_iff {forest : List (BlockTree α)} :
    forest.flatMap lost = [] ↔ ∀ positions ∈ forest.flatMap shape, positions.Nodup := by
  rw [flatMap_eq_nil_iff]
  constructor
  · intro h positions hpositions
    obtain ⟨tree, htree, hmem⟩ := mem_flatMap.1 hpositions
    obtain ⟨subtree, hsubtree, rfl⟩ := mem_map.1 hmem
    exact lost_eq_nil_iff.1 (h tree htree) subtree hsubtree
  · intro h tree htree
    refine lost_eq_nil_iff.2 fun subtree hsubtree => ?_
    exact h _ (mem_flatMap.2 ⟨tree, htree, mem_map_of_mem hsubtree⟩)

end BlockTree

namespace Xml.Element

/-- The block elements of a document that count: those that stand directly in it, and those that count
in the holders of one that counts. -/
inductive Selects (root : Element) : Element → Prop
  | top {element : Element} : element ∈ root.children → element.isBlock = true →
      Selects root element
  | held {element child : Element} {position : Position} : Selects root element →
      (position, child) ∈ element.branches → Selects root child

/-- Two holders with one tag and one name hold a block or a shadow each. -/
def Repeats (element : Element) (tag : String) : Prop :=
  ∃ first second, [first, second].Sublist (element.withTag tag) ∧
    BlockSource.nameOf first = BlockSource.nameOf second ∧
    first.connected?.isSome = true ∧ second.connected?.isSome = true

theorem branches_outline (element : Element) :
    element.outline.branches =
      element.branches.map (fun branch => (branch.1, branch.2.outline)) := by
  rw [outline_eq, branches_node]

theorem positions_outline (element : Element) :
    element.outline.branches.map Prod.fst = element.branches.map Prod.fst := by
  rw [branches_outline, map_map]
  rfl

theorem Selects.mem_subtrees (h : root.Selects element) :
    element.outline ∈ root.outlines.flatMap BlockTree.subtrees := by
  induction h with
  | @top element hmem hblock =>
    refine mem_flatMap.2 ⟨element.outline, ?_, element.outline.self_mem_subtrees⟩
    exact mem_map_of_mem (mem_filter.2 ⟨hmem, hblock⟩)
  | @held element child position _ hbranch ih =>
    obtain ⟨tree, htree, hmem⟩ := mem_flatMap.1 ih
    refine mem_flatMap.2 ⟨tree, htree, (subtrees_sublist hmem).subset ?_⟩
    apply element.outline.branches_sublist.subset
    rw [branches_outline, map_map]
    exact mem_map.2 ⟨(position, child), hbranch, rfl⟩

theorem Selects.exists_of_mem_subtrees (h : root.Selects element)
    {subtree : BlockTree BlockSource} (hmem : subtree ∈ element.outline.subtrees) :
    ∃ other, root.Selects other ∧ subtree = other.outline := by
  induction element using outline.induct with
  | case1 element ih =>
    rw [outline_eq, subtrees_node, ← outline_eq, mem_cons, mem_flatMap] at hmem
    rcases hmem with rfl | ⟨tree, htree, hmem⟩
    · exact ⟨element, h, rfl⟩
    · rw [map_map] at htree
      obtain ⟨branch, hbranch, rfl⟩ := mem_map.1 htree
      exact ih ⟨branch, hbranch⟩ (h.held hbranch) hmem

/-- The nodes of the outlines are the elements that count. -/
theorem mem_shape_outlines_iff {positions : List Position} :
    positions ∈ root.outlines.flatMap BlockTree.shape ↔
      ∃ element, root.Selects element ∧ positions = element.branches.map Prod.fst := by
  constructor
  · intro h
    obtain ⟨tree, htree, hpositions⟩ := mem_flatMap.1 h
    obtain ⟨subtree, hsubtree, rfl⟩ := mem_map.1 hpositions
    obtain ⟨top, htop, rfl⟩ := mem_map.1 htree
    obtain ⟨hmem, hblock⟩ := mem_filter.1 htop
    obtain ⟨element, hselects, rfl⟩ := (Selects.top hmem hblock).exists_of_mem_subtrees hsubtree
    exact ⟨element, hselects, positions_outline element⟩
  · rintro ⟨element, hselects, rfl⟩
    obtain ⟨tree, htree, hmem⟩ := mem_flatMap.1 hselects.mem_subtrees
    refine mem_flatMap.2 ⟨tree, htree, ?_⟩
    rw [← positions_outline]
    exact mem_map_of_mem hmem

theorem positions_branchesAt (element : Element) (tag : String) (position : String → Position) :
    (element.branchesAt tag position).map Prod.fst =
      ((element.withTag tag).filter (fun holder => holder.connected?.isSome)).map
        (fun holder => position (BlockSource.nameOf holder)) := by
  unfold branchesAt
  induction element.withTag tag with
  | nil => rfl
  | cons holder rest ih =>
    cases hheld : holder.connected? with
    | none | some child => simp [hheld, ih]

theorem nodup_positions_branchesAt_iff (element : Element) (tag : String)
    (position : String → Position) (h : Function.Injective position) :
    ((element.branchesAt tag position).map Prod.fst).Nodup ↔ ¬ element.Repeats tag := by
  rw [positions_branchesAt, List.Nodup, pairwise_map, pairwise_filter, pairwise_iff_forall_sublist]
  constructor
  · rintro hall ⟨first, second, hsublist, hname, hfirst, hsecond⟩
    exact hall hsublist hfirst hsecond (congrArg position hname)
  · intro hnot first second hsublist hfirst hsecond hsame
    exact hnot ⟨first, second, hsublist, h hsame, hfirst, hsecond⟩

/-- Positions repeat only among the values and among the statements. -/
theorem nodup_positions_iff (element : Element) :
    (element.branches.map Prod.fst).Nodup ↔
      ¬ (element.Repeats "value" ∨ element.Repeats "statement") := by
  have hvalues := element.nodup_positions_branchesAt_iff "value" .value
    fun _ _ h => Position.value.inj h
  have hstatements := element.nodup_positions_branchesAt_iff "statement" .statement
    fun _ _ h => Position.statement.inj h
  have hat : ∀ {tag : String} {position : String → Position} {other : Position},
      other ∈ (element.branchesAt tag position).map Prod.fst → ∃ name, other = position name := by
    intro tag position other hmem
    rw [positions_branchesAt] at hmem
    obtain ⟨holder, -, rfl⟩ := mem_map.1 hmem
    exact ⟨_, rfl⟩
  obtain ⟨next, hbranches, hnext⟩ : ∃ next : List Position,
      element.branches.map Prod.fst = (element.branchesAt "value" .value).map Prod.fst ++
        (element.branchesAt "statement" .statement).map Prod.fst ++ next ∧
      (next = [] ∨ next = [.next]) := by
    unfold branches
    rw [map_append, map_append]
    refine ⟨_, rfl, ?_⟩
    cases (element.withTag "next").getLast?.bind connected? with
    | none => exact .inl rfl
    | some child => exact .inr rfl
  have hdisjoint : ∀ a ∈ (element.branchesAt "value" .value).map Prod.fst,
      ∀ b ∈ (element.branchesAt "statement" .statement).map Prod.fst, a ≠ b := by
    rintro a ha b hb rfl
    obtain ⟨socket, rfl⟩ := hat ha
    obtain ⟨slot, hslot⟩ := hat hb
    cases hslot
  have hlast : ∀ a ∈ (element.branchesAt "value" .value).map Prod.fst ++
      (element.branchesAt "statement" .statement).map Prod.fst, ∀ b ∈ next, a ≠ b := by
    rintro a ha b hb rfl
    obtain rfl : a = .next := by
      rcases hnext with rfl | rfl
      · cases hb
      · exact mem_singleton.1 hb
    rcases mem_append.1 ha with ha | ha
    all_goals
      obtain ⟨name, hname⟩ := hat ha
      cases hname
  have hnextNodup : next.Nodup := by
    rcases hnext with rfl | rfl
    · exact nodup_nil
    · exact nodup_singleton _
  rw [hbranches, nodup_append, nodup_append, hvalues, hstatements, not_or]
  exact ⟨fun h => ⟨h.1.1, h.1.2.1⟩, fun h => ⟨⟨h.1, h.2, hdisjoint⟩, hnextNodup, hlast⟩⟩

/-- Nothing is lost in a document without repeated holders. -/
theorem lost_eq_nil_iff :
    root.forest.flatMap BlockTree.lost = [] ↔
      ¬ ∃ element, root.Selects element ∧
        (element.Repeats "value" ∨ element.Repeats "statement") := by
  rw [flatMap_lost_eq_nil_iff, forest, flatMap_shape_numberForest]
  constructor
  · rintro hall ⟨element, hselects, hrepeats⟩
    have hnodup := hall _ (mem_shape_outlines_iff.2 ⟨element, hselects, rfl⟩)
    exact element.nodup_positions_iff.1 hnodup hrepeats
  · intro hnone positions hpositions
    obtain ⟨element, hselects, rfl⟩ := mem_shape_outlines_iff.1 hpositions
    exact element.nodup_positions_iff.2 fun hrepeats => hnone ⟨element, hselects, hrepeats⟩

end Xml.Element

/-! ## The faults of loading a document -/

section

variable {root : Element} {document : Option String} {t : Loading} {fault : Fault}

theorem ofLoading_of_fails_ofRoot (h : Fails (ofRoot root document) {} fault t) :
    fault.OfLoading := by
  by_cases hname : root.name = "xml"
  swap
  · obtain rfl : .wrongRoot root.name = fault := by
      simp [ofRoot, hname] at h
      exact h.1
    exact trivial
  rcases (fails_ofRoot hname).1 h with ⟨text, -, hread, -⟩ | ⟨-, hload⟩
  · rcases eq_of_readRegistration_eq_error hread with rfl | ⟨flavor, rfl⟩ <;> exact trivial
  · rcases fails_loadWorkspace.1 hload with helements | ⟨helements, hvalidate⟩
    · exact FailsOnly.forM _ (fun _ _ => failsOnly_loadElement _) _ _ _ helements
    · rcases validate_cases_of_loaded helements with ⟨hvalid, -⟩ | ⟨ids, hfault, -⟩
      · rw [hvalid] at hvalidate
        cases hvalidate
      · rw [hfault] at hvalidate
        cases hvalidate
        exact trivial

/-- If blocks and registration load, only the check can fail. -/
theorem fails_ofRoot_of_loaded (hname : root.name = "xml")
    (helements : Yields (forM root.children Loader.loadElement) {} () m)
    (hread : ∀ text ∈ document, Known (Program.readRegistration text)) :
    Fails (ofRoot root document) {} fault t ↔
      t = m ∧ m.workspace.validate = .error fault := by
  rw [fails_ofRoot hname, fails_loadWorkspace]
  constructor
  · rintro (⟨text, htext, hfault, -⟩ | ⟨-, hload | ⟨hyields, hvalidate⟩⟩)
    · obtain ⟨registration, hregistration⟩ := hread text htext
      rw [hregistration] at hfault
      cases hfault
    · exact absurd hload helements.not_fails
    · obtain rfl := helements.state_eq hyields
      exact ⟨rfl, hvalidate⟩
  · rintro ⟨rfl, hvalidate⟩
    exact .inr ⟨hread, .inr ⟨helements, hvalidate⟩⟩

end

/-- Loading a document has none of the faults of linking but one. If all blocks load and so does the
registration, loading fails exactly if an element that counts has two holders of values, or two of
statements, with one name and something in both. The fault then lists the blocks in the holders that
a later one takes the place of, with all that is below them. -/
theorem linking_fails_by_repeated_holders {root : Element} {document : Option String}
    (hname : root.name = "xml") :
    (∀ fault t, Fails (ofRoot root document) {} fault t → ¬ fault.OfLinks) ∧
      ∀ m, Yields (forM root.children Loader.loadElement) {} () m →
        (∀ text ∈ document, Known (Program.readRegistration text)) →
        ((∃ fault t, Fails (ofRoot root document) {} fault t) ↔
            ∃ element, root.Selects element ∧
              (element.Repeats "value" ∨ element.Repeats "statement")) ∧
          ∀ fault t, Fails (ofRoot root document) {} fault t →
            ∃ ids, fault = .unreachable ids ∧
              fault.message = "Blocks form a cycle: " ++ ", ".intercalate ids ++ "." ∧
              ids.Pairwise (· < ·) ∧
              ∀ id, id ∈ ids ↔ id ∈ (root.forest.flatMap BlockTree.lost).map Label.id := by
  refine ⟨fun fault t h => (ofLoading_of_fails_ofRoot h).not_ofLinks, fun m helements hread => ?_⟩
  have hrepeats := not_iff_comm.1 (@Xml.Element.lost_eq_nil_iff root).symm
  simp only [fails_ofRoot_of_loaded hname helements hread]
  rw [← hrepeats]
  rcases validate_cases_of_loaded helements with
    ⟨hvalid, hnil⟩ | ⟨ids, hfault, hsome, hsorted, hids⟩
  · rw [hvalid]
    refine ⟨⟨?_, fun h => absurd hnil h⟩, ?_⟩
    · rintro ⟨fault, t, -, h⟩
      cases h
    · rintro fault t ⟨-, h⟩
      cases h
  · refine ⟨⟨fun _ => hsome, fun _ => ⟨_, m, rfl, hfault⟩⟩, ?_⟩
    rintro fault t ⟨-, h⟩
    rw [hfault] at h
    cases h
    exact ⟨ids, rfl, rfl, hsorted, hids⟩

open Xml.Element in
/-- A loop with two numbers of rounds. -/
def twofoldDocument : Element :=
  withAttributes "xml" []
    [blockOf "controls_repeat_ext" "a"
      [valueOf "TIMES" (blockOf "math_arithmetic" "b"
          [fieldOf "OP" "ADD", valueOf "A" (blockOf "math_number" "c" [fieldOf "NUM" "3"])]),
        valueOf "TIMES" (blockOf "math_number" "d" [fieldOf "NUM" "4"])]]

/-- The first number of rounds is lost, with what is below it. -/
theorem twofoldDocument_loses_blocks :
    ∃ ids t, Fails (ofRoot twofoldDocument none) {} (.unreachable ids) t ∧
      ∀ id, id ∈ ids ↔ id = "b" ∨ id = "c" := by
  have helements : Yields (forM twofoldDocument.children Loader.loadElement) {} () _ :=
    yields_of_fst_run_eq (by decide)
  obtain ⟨-, hloaded⟩ := @linking_fails_by_repeated_holders twofoldDocument none rfl
  obtain ⟨hfails, hlists⟩ := hloaded _ helements (by simp)
  have hlost : (twofoldDocument.forest.flatMap BlockTree.lost).map Label.id = ["b", "c"] := by
    have houtlines : twofoldDocument.outlines =
        (twofoldDocument.children.filter Xml.Element.isBlock).map
          (fun element => (Sketch.ofElement element).tree) := by
      simp only [Xml.Element.outlines, Sketch.tree_ofElement]
    rw [Xml.Element.forest, houtlines]
    decide
  have hrepeats : ∃ element, twofoldDocument.Selects element ∧
      (element.Repeats "value" ∨ element.Repeats "statement") := by
    refine ⟨_, .top mem_cons_self rfl, .inl ⟨_, _, List.Sublist.refl _, ?_⟩⟩
    decide
  obtain ⟨fault, t, hfault⟩ := hfails.2 hrepeats
  obtain ⟨ids, rfl, -, -, hids⟩ := hlists fault t hfault
  refine ⟨ids, t, hfault, fun id => ?_⟩
  rw [hids, hlost]
  simp

end RobotBlocks
