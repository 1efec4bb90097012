import RobotBlocks.Proofs.Program.Outline
import RobotBlocks.Proofs.Workspace.Linked

/-!
# What loading leaves in the workspace

Loading enters a block before the blocks below it and links these to it one after the other. In
between the workspace holds a tree of which some branches are not yet there. The invariant is the
listing of the blocks: what was there before, the block with the branches that it has so far, and the
finished blocks of these branches (`yields_forM_attach`). When a tree is finished the workspace has
its linked blocks at the end (`yields_load`), with the identities that numbering the document gives and
with the names of its variables.
-/

set_option autoImplicit false

namespace RobotBlocks

open List BlockTree

open RobotBlocks.Xml (Element)

/-- Some names with others after them, each only once. -/
def declareAll (known names : List String) : List String :=
  names.foldl (fun known name => if known.contains name then known else known ++ [name]) known

theorem declareAll_append (known front back : List String) :
    declareAll known (front ++ back) = declareAll (declareAll known front) back :=
  foldl_append

theorem variableNames_declareVariable (w : Workspace) (name : String) :
    (w.declareVariable name).variableNames = declareAll w.variableNames [name] := by
  simp only [Workspace.declareVariable, declareAll, foldl_cons, foldl_nil]
  split <;> rfl

theorem blocks_declareVariable (w : Workspace) (name : String) :
    (w.declareVariable name).blocks = w.blocks := by
  unfold Workspace.declareVariable
  split <;> rfl

theorem variableNames_foldl_declareVariable (w : Workspace) (names : List String) :
    (names.foldl Workspace.declareVariable w).variableNames = declareAll w.variableNames names := by
  induction names generalizing w with
  | nil => rfl
  | cons name rest ih =>
    rw [foldl_cons, ih, variableNames_declareVariable, ← declareAll_append]
    rfl

theorem blocks_foldl_declareVariable (w : Workspace) (names : List String) :
    (names.foldl Workspace.declareVariable w).blocks = w.blocks := by
  induction names generalizing w with
  | nil => rfl
  | cons name rest ih => rw [foldl_cons, ih, blocks_declareVariable]

/-- Declaring names one after the other leaves the first occurrence of each. -/
theorem declareAll_eq_append (known names : List String) :
    declareAll known names = known ++ (names.removeAll known).eraseDups := by
  induction names generalizing known with
  | nil => simp [declareAll, List.removeAll]
  | cons name rest ih =>
    have hstep : declareAll known (name :: rest) =
        declareAll (if known.contains name then known else known ++ [name]) rest := rfl
    rw [hstep]
    by_cases h : name ∈ known
    · rw [if_pos (by simpa using h), ih]
      simp [List.removeAll, h]
    · rw [if_neg (by simpa using h), ih]
      have hothers : rest.removeAll (known ++ [name]) =
          (rest.removeAll known).filter (fun other => !(other == name)) := by
        unfold List.removeAll
        rw [filter_filter]
        refine filter_congr (fun other _ => ?_)
        by_cases hother : other = name <;> simp [hother]
      have hfirst : (name :: rest).removeAll known = name :: rest.removeAll known := by
        simp [List.removeAll, h]
      rw [hothers, hfirst, eraseDups_cons, append_assoc, singleton_append]

theorem declareAll_nil (names : List String) : declareAll [] names = names.eraseDups := by
  rw [declareAll_eq_append]
  simp [List.removeAll]

namespace Workspace

/-- Connects a block at a position of another one. -/
def connectAt (w : Workspace) (parent : String) (position : Position) (child : String) :
    Except Fault Unit × Workspace :=
  match position with
  | .value socket => w.connectValue parent socket child
  | .statement slot => w.connectStatement parent slot child
  | .next => w.connectNext parent child

end Workspace

namespace Loader

variable {s t : Loading} {u : Unit}
variable {source : BlockSource} {block : Block} {w w' : Workspace} {kind : BlockKind}

theorem yields_record {event : Event} :
    Yields (record event) s u t ↔ t = { s with events := event :: s.events } := by
  unfold record
  rw [yields_modify, eq_comm]

theorem yields_connect {operation : Workspace → Except Fault Unit × Workspace} :
    Yields (connect operation) s u t ↔
      ∃ w, operation s.workspace = (.ok (), w) ∧ t = { s with workspace := w } := by
  unfold connect
  simp only [yields_bind, yields_get, yields_modify, yields_liftM]
  constructor
  · rintro ⟨_, _, ⟨rfl, rfl⟩, _, _, rfl, hresult, rfl⟩
    exact ⟨(operation s.workspace).2, Prod.ext hresult rfl, rfl⟩
  · rintro ⟨w, hw, rfl⟩
    refine ⟨s, s, ⟨rfl, rfl⟩, (), _, rfl, ?_, ?_⟩ <;> rw [hw]

/-! ## One block -/

variable {id : String}

theorem yields_identity (h : Yields (identity source.attributes) s id t) :
    source.identity s.generated = (id, t.generated) ∧ t.workspace = s.workspace := by
  unfold identity at h
  unfold BlockSource.identity
  cases hid : (source.attributes.get? "id").filter (fun id => !id.isEmpty) with
  | some stated =>
    simp only [hid] at h ⊢
    obtain ⟨rfl, rfl⟩ := yields_pure.1 h
    exact ⟨rfl, rfl⟩
  | none =>
    simp only [hid, yields_bind, yields_get, yields_modify, yields_pure] at h ⊢
    obtain ⟨_, _, ⟨rfl, rfl⟩, _, _, rfl, rfl, rfl⟩ := h
    exact ⟨rfl, rfl⟩

variable {typeName : String}

theorem eq_of_kindOf_eq_ok {attributes : Dict String}
    (h : kindOf id attributes = .ok (typeName, kind)) :
    attributes.get? "type" = some typeName ∧ BlockKind.ofTypeName? typeName = some kind := by
  unfold kindOf at h
  split at h
  · cases h
  · rename_i stated hstated
    split at h
    · cases h
    · rename_i found hfound
      cases h
      exact ⟨hstated, hfound⟩

theorem yields_forM_record {events : List String} {event : String → Event}
    (h : Yields (forM events (fun name => record (event name))) s u t) :
    t.workspace = s.workspace ∧ t.generated = s.generated := by
  induction events generalizing s with
  | nil =>
    obtain rfl := yields_forM_nil.1 h
    exact ⟨rfl, rfl⟩
  | cons name rest ih =>
    obtain ⟨m, hfirst, hrest⟩ := yields_forM_cons.1 h
    obtain rfl := yields_record.1 hfirst
    obtain ⟨hworkspace, hgenerated⟩ := ih hrest
    exact ⟨hworkspace, hgenerated⟩

theorem yields_mutationOf {mutation : Option Mutation}
    (h : Yields (mutationOf id typeName kind source) s mutation t) :
    t.workspace = s.workspace ∧ t.generated = s.generated := by
  unfold mutationOf at h
  split at h
  · split at h
    · split at h
      · obtain ⟨-, rfl⟩ := yields_pure.1 h
        exact ⟨rfl, rfl⟩
      · exact absurd h yields_throw
    · simp only [yields_bind, yields_record, yields_pure] at h
      obtain ⟨_, _, rfl, -, rfl⟩ := h
      exact ⟨rfl, rfl⟩
  · split at h
    · exact absurd h yields_throw
    · obtain ⟨-, rfl⟩ := yields_pure.1 h
      exact ⟨rfl, rfl⟩

/-- The block of a source has what the document says, and no links. -/
theorem yields_blockOf (h : Yields (blockOf source) s block t) :
    block.Bare ∧ BlockKind.ofTypeName? block.typeName = some block.kind ∧
      source.attributes.get? "type" = some block.typeName ∧
      block.label = source.label (source.identity s.generated).1 ∧
      t.generated = (source.identity s.generated).2 ∧ t.workspace = s.workspace := by
  unfold blockOf at h
  simp only [yields_bind, yields_liftM, forM_eq_forM, yields_pure] at h
  obtain ⟨id, m₁, hid, ⟨typeName, kind⟩, m₂, ⟨hkind, rfl⟩, _, m₃, hevents, mutation, m₄, hmutation,
    rfl, rfl⟩ := h
  obtain ⟨hidentity, hworkspace₁⟩ := yields_identity hid
  obtain ⟨htype, hname⟩ := eq_of_kindOf_eq_ok hkind
  obtain ⟨hworkspace₂, hgenerated₂⟩ := yields_forM_record hevents
  obtain ⟨hworkspace₃, hgenerated₃⟩ := yields_mutationOf hmutation
  refine ⟨⟨rfl, rfl, rfl, rfl⟩, hname, htype, ?_, ?_, ?_⟩
  · simp [Block.label, Block.applyMutation, BlockSource.label, htype, hidentity]
  · rw [hgenerated₃, hgenerated₂, hidentity]
  · rw [hworkspace₃, hworkspace₂, hworkspace₁]

theorem isVariable_iff (h : BlockKind.ofTypeName? typeName = some kind) :
    (kind = .variablesGet ∨ kind = .variablesSet) ↔
      (typeName = "variables_get" ∨ typeName = "variables_set") := by
  obtain ⟨entry, hentry, rfl⟩ := Option.map_eq_some_iff.1 h
  have hname : entry.1 = typeName := by simpa using find?_some hentry
  have hall : ∀ entry ∈ BlockKind.typeNames,
      (entry.2 = .variablesGet ∨ entry.2 = .variablesSet) ↔
        (entry.1 = "variables_get" ∨ entry.1 = "variables_set") := by
    decide
  rw [← hname]
  exact hall entry (mem_of_find?_eq_some hentry)

theorem yields_declareVariableOf (h : Yields (declareVariableOf block) s u t)
    (hkind : BlockKind.ofTypeName? block.typeName = some block.kind)
    (htype : source.attributes.get? "type" = some block.typeName)
    (hfields : block.fields = source.fields) :
    t.workspace.blocks = s.workspace.blocks ∧ t.generated = s.generated ∧
      t.workspace.variableNames =
        declareAll s.workspace.variableNames source.variableName?.toList := by
  have hvariable : source.variableName? =
      if block.kind = .variablesGet ∨ block.kind = .variablesSet then block.field? "VAR"
      else none := by
    unfold BlockSource.variableName? Block.field?
    simp only [htype, Option.some.injEq, hfields, isVariable_iff hkind]
  have hdeclare : (block.kind = .variablesGet ∨ block.kind = .variablesSet) →
      Yields (do
        let name ← block.requiredField "VAR"
        modify fun state => { state with workspace := state.workspace.declareVariable name } :
          Loader Unit) s u t →
      t.workspace.blocks = s.workspace.blocks ∧ t.generated = s.generated ∧
        t.workspace.variableNames =
          declareAll s.workspace.variableNames source.variableName?.toList := by
    intro hkind h
    simp only [yields_bind, yields_liftM, yields_modify] at h
    obtain ⟨name, m, ⟨hfield, rfl⟩, rfl⟩ := h
    refine ⟨blocks_declareVariable _ _, rfl, ?_⟩
    rw [hvariable, if_pos hkind, Block.field?_of_requiredField hfield]
    exact variableNames_declareVariable _ _
  unfold declareVariableOf at h
  split at h
  · exact hdeclare (.inl ‹_›) h
  · exact hdeclare (.inr ‹_›) h
  · rename_i hget hset
    obtain ⟨-, rfl⟩ := yields_pure.1 h
    rw [hvariable, if_neg (by rintro (hkind | hkind) <;> contradiction)]
    exact ⟨rfl, rfl, rfl⟩

theorem eq_of_insert_eq_ok (h : w.insert block = .ok w') :
    w'.blocks = w.blocks ++ [block] ∧ w'.variableNames = w.variableNames := by
  unfold Workspace.insert at h
  split at h
  · cases h
  · cases h
    exact ⟨rfl, rfl⟩

/-- A block is entered at the end, without links. -/
theorem yields_enter (h : Yields (enter source) s block t) :
    block.Bare ∧ block.label = source.label (source.identity s.generated).1 ∧
      t.generated = (source.identity s.generated).2 ∧
      t.workspace.blocks = s.workspace.blocks ++ [block] ∧
      t.workspace.variableNames =
        declareAll s.workspace.variableNames source.variableName?.toList := by
  unfold enter at h
  simp only [yields_bind, yields_get, yields_liftM, yields_modify, yields_pure] at h
  obtain ⟨own, m₁, hblock, _, m₂, hdeclare, _, _, ⟨rfl, rfl⟩, w, _, ⟨hinsert, rfl⟩, _, _, rfl, rfl,
    rfl⟩ := h
  obtain ⟨hbare, hkind, htype, hlabel, hgenerated, hworkspace⟩ := yields_blockOf hblock
  have hfields : own.fields = source.fields := congrArg Label.fields hlabel
  obtain ⟨hblocks, hgenerated', hnames⟩ := yields_declareVariableOf hdeclare hkind htype hfields
  obtain ⟨hinserted, hnames'⟩ := eq_of_insert_eq_ok hinsert
  refine ⟨hbare, hlabel, ?_, ?_, ?_⟩
  · show m₂.generated = _
    rw [hgenerated', hgenerated]
  · show w.blocks = _
    rw [hinserted, hblocks, hworkspace]
  · show w.variableNames = _
    rw [hnames', hnames, hworkspace]

/-! ## Links -/

variable {w : Workspace}

theorem blocks_modify {front back : List Block} {change : Block → Block}
    {keepsId : ∀ block, (change block).id = block.id} (h : w.blocks = front ++ block :: back) :
    (w.modify block.id change keepsId).blocks = front ++ change block :: back := by
  have hnodup := w.distinct
  rw [h, map_append, map_cons, nodup_append, nodup_cons] at hnodup
  obtain ⟨-, ⟨hback, -⟩, hfront⟩ := hnodup
  have hsame : ∀ others : List Block, (∀ other ∈ others, other.id ≠ block.id) →
      others.map (fun other => if other.id = block.id then change other else other) = others := by
    intro others hne
    refine (map_congr_left (fun other hother => ?_)).trans (map_id others)
    exact if_neg (hne other hother)
  show w.blocks.map _ = _
  rw [h, map_append, map_cons, if_pos rfl, hsame front, hsame back]
  · intro other hother hid
    exact hback (hid ▸ mem_map_of_mem hother)
  · intro other hother
    exact hfront other.id (mem_map_of_mem hother) block.id mem_cons_self

/-- The workspace with a block at a position of another one, with both ends of the link. -/
def hang (w : Workspace) (parent : String) (position : Position) (child : String) : Workspace :=
  (w.setParent child (position.link parent)).modify parent (fun block => block.hang position child)
    (fun block => block.id_hang position child)

variable {parent : Block}

theorem blocks_hang {front middle back : List Block} {child : Block}
    (h : w.blocks = front ++ parent :: (middle ++ child :: back)) (position : Position) :
    (hang w parent.id position child.id).blocks =
      front ++ parent.hang position child.id ::
        (middle ++ child.hungAt (some (position.link parent.id)) :: back) := by
  have hchild : w.blocks = (front ++ parent :: middle) ++ child :: back := by
    rw [h]
    simp
  have hparent : (w.setParent child.id (position.link parent.id)).blocks =
      front ++ parent :: (middle ++ child.hungAt (some (position.link parent.id)) :: back) := by
    unfold Workspace.setParent
    rw [blocks_modify hchild]
    simp [Block.hungAt]
  exact blocks_modify hparent

variable {child : String}

/-- A connection that is made has entered the child at some parent. -/
theorem connect_eq_ok {link : Link} {enter : Workspace → Block → Except Fault Workspace}
    (h : w.connect child link enter = (.ok (), w')) :
    ∃ parent, enter (w.setParent child link) parent = .ok w' := by
  unfold Workspace.connect at h
  split at h
  · cases h
  · rename_i adopted hadopted
    have hadopt : adopted = w.setParent child link := by
      unfold Workspace.adopt at hadopted
      cases hblock : w.block child with
      | error fault => simp [hblock, bind, Except.bind] at hadopted
      | ok block =>
        simp only [hblock, bind, Except.bind] at hadopted
        split at hadopted
        · cases hadopted
        · cases hadopted
          rfl
    subst hadopt
    split at h
    · cases h
    · rename_i parent hparent
      split at h
      · cases h
      · rename_i entered hentered
        cases h
        exact ⟨parent, hentered⟩

variable {position : Position}

/-- A connection that is made hangs one block at another. -/
theorem eq_hang_of_connectAt {parent : String}
    (h : w.connectAt parent position child = (.ok (), w')) : w' = hang w parent position child := by
  unfold Workspace.connectAt at h
  split at h
  · obtain ⟨_, hentered⟩ := connect_eq_ok h
    cases hentered
    rfl
  · obtain ⟨_, hentered⟩ := connect_eq_ok h
    cases hentered
    rfl
  · obtain ⟨block, hentered⟩ := connect_eq_ok h
    split at hentered
    · cases hentered
    · cases hentered
      rfl

/-- Records a value in a socket that its block does not declare. -/
def note (parent : Block) : Position → Loader Unit
  | .value socket =>
    if (parent.shape.socket? socket).isNone then record (.undeclaredSocket parent.id socket)
    else pure ()
  | _ => pure ()

/-- Loads a branch of a block and links it to the block. -/
def attach (parent : Block) (branch : Position × Sketch) : Loader Unit := do
  let child ← load branch.2
  note parent branch.1
  connect (fun w => w.connectAt parent.id branch.1 child)

/-- A block is entered, and its branches are attached to it one after the other. -/
theorem load_eq (sketch : Sketch) :
    load sketch = do
      let block ← enter sketch.source
      forM sketch.branches (attach block)
      return block.id := by
  obtain ⟨source, values, statements, next⟩ := sketch
  have hvalues : ∀ block, loadValues block values =
      forM (values.map (fun entry => (.value entry.1, entry.2))) (attach block) := by
    intro block
    induction values with
    | nil => rfl
    | cons entry rest ih =>
      rw [loadValues, ih, map_cons, forM_cons]
      simp only [attach, note, bind_assoc]
      refine congrArg _ (funext fun child => ?_)
      split <;> simp [Workspace.connectAt]
  have hstatements : ∀ block, loadStatements block.id statements =
      forM (statements.map (fun entry => (.statement entry.1, entry.2))) (attach block) := by
    intro block
    induction statements with
    | nil => rfl
    | cons entry rest ih =>
      rw [loadStatements, ih, map_cons, forM_cons]
      simp [attach, note, Workspace.connectAt]
  have hnext : ∀ block, loadNext block.id next =
      forM (next.toList.map (fun sketch => (.next, sketch))) (attach block) := by
    intro block
    cases next <;> simp [loadNext, attach, note, Workspace.connectAt]
  unfold load
  simp only [hvalues, hstatements, hnext, Sketch.branches, forM_append, bind_assoc]
  rfl

theorem yields_note (h : Yields (note parent position) s u t) :
    t.workspace = s.workspace ∧ t.generated = s.generated := by
  unfold note at h
  split at h
  · split at h
    · rw [yields_record.1 h]
      exact ⟨rfl, rfl⟩
    · rw [(yields_pure.1 h).2]
      exact ⟨rfl, rfl⟩
  · rw [(yields_pure.1 h).2]
    exact ⟨rfl, rfl⟩

/-! ## Trees -/

/-- Between two states a tree was loaded. -/
def TreeLoaded (source : BlockTree BlockSource) (s : Loading) (id : String) (t : Loading) : Prop :=
  ∃ tree : BlockTree Block,
    source.number s.generated = (tree.map Block.label, t.generated) ∧
    (∀ block ∈ tree.labels, block.Bare) ∧ tree.label.id = id ∧
    t.workspace.variableNames =
      declareAll s.workspace.variableNames (source.labels.filterMap BlockSource.variableName?) ∧
    t.workspace.blocks = s.workspace.blocks ++ tree.linked none

/-- Between two states some branches of a block were loaded. -/
def BranchesLoaded (parent : String) (sources : Branches BlockSource)
    (s t : Loading) : Prop :=
  ∃ branches : Branches Block,
    BlockTree.numberAll sources s.generated =
      (BlockTree.mapAll Block.label branches, t.generated) ∧
    (∀ branch ∈ branches, ∀ block ∈ branch.2.labels, block.Bare) ∧
    t.workspace.variableNames =
      declareAll s.workspace.variableNames
        ((sources.flatMap (fun source => source.2.labels)).filterMap BlockSource.variableName?) ∧
    ∀ front block back, s.workspace.blocks = front ++ block :: back → block.id = parent →
      t.workspace.blocks =
        front ++ block.hangAll (branches.map (fun branch => (branch.1, branch.2.label.id))) ::
          (back ++ BlockTree.linkedAll parent branches)

theorem branchesLoaded_nil (parent : String) (s : Loading) : BranchesLoaded parent [] s s := by
  refine ⟨[], rfl, by simp, rfl, ?_⟩
  intro front block back hblocks _
  rw [hblocks]
  simp [Block.hangAll, BlockTree.linkedAll]

theorem BranchesLoaded.append {parent : String} {front back : Branches BlockSource}
    {s m t : Loading} (hfront : BranchesLoaded parent front s m)
    (hback : BranchesLoaded parent back m t) : BranchesLoaded parent (front ++ back) s t := by
  obtain ⟨first, hnumber, hbare, hnames, hblocks⟩ := hfront
  obtain ⟨second, hnumber', hbare', hnames', hblocks'⟩ := hback
  refine ⟨first ++ second, ?_, ?_, ?_, ?_⟩
  · rw [numberAll_append, hnumber, hnumber', mapAll_eq, mapAll_eq, mapAll_eq, map_append]
  · intro branch hbranch
    rcases mem_append.1 hbranch with hbranch | hbranch
    · exact hbare branch hbranch
    · exact hbare' branch hbranch
  · rw [hnames', hnames, flatMap_append, filterMap_append, declareAll_append]
  · intro before block after hs hid
    have hm := hblocks before block after hs hid
    rw [hblocks' _ _ _ hm (by simpa using hid), linkedAll_eq, linkedAll_eq,
      linkedAll_eq, flatMap_append, map_append, ← append_assoc]
    simp [Block.hangAll]

/-- A tree that is hung at a position is a branch there. -/
theorem TreeLoaded.branch {parent : String} {source : BlockTree BlockSource} {s m t : Loading}
    (h : TreeLoaded source s child m) (hgenerated : t.generated = m.generated)
    (hworkspace : t.workspace = hang m.workspace parent position child) :
    BranchesLoaded parent [(position, source)] s t := by
  obtain ⟨tree, hnumber, hbare, rfl, hnames, hblocks⟩ := h
  refine ⟨[(position, tree)], ?_, ?_, ?_, ?_⟩
  · simp [BlockTree.numberAll, BlockTree.mapAll, hnumber, hgenerated]
  · simpa using hbare
  · rw [hworkspace, flatMap_singleton]
    exact hnames
  · intro front block back hs hid
    subst hid
    obtain ⟨label, branches⟩ := tree
    have hm : m.workspace.blocks = front ++ block ::
        (back ++ (label.hangAll (BlockTree.node label branches).children).hungAt none ::
          BlockTree.linkedAll label.id branches) := by
      rw [hblocks, hs]
      simp [BlockTree.linked, BlockTree.children]
    have hhung := blocks_hang hm position
    rw [hworkspace]
    simp only [Block.id_hungAt, Block.id_hangAll] at hhung
    rw [label_node, hhung]
    simp [BlockTree.linkedAll, BlockTree.linked, Block.hangAll, BlockTree.children, Block.hungAt]

theorem TreeLoaded.ofEnter {branches : Branches BlockSource} {s m t : Loading}
    (henter : Yields (enter source) s block m) (hbranches : BranchesLoaded block.id branches m t) :
    TreeLoaded (.node source branches) s block.id t := by
  obtain ⟨hbare, hlabel, hgenerated, hblocks, hnames⟩ := yields_enter henter
  obtain ⟨below, hnumber, hbareBelow, hnamesBelow, hblocksBelow⟩ := hbranches
  refine ⟨.node block below, ?_, ?_, rfl, ?_, ?_⟩
  · rw [BlockTree.number, ← hgenerated, hnumber, BlockTree.map, hlabel]
  · intro other hother
    rw [labels_node] at hother
    rcases mem_cons.1 hother with rfl | hother
    · exact hbare
    · obtain ⟨branch, hbranch, hlabels⟩ := mem_flatMap.1 hother
      exact hbareBelow branch hbranch other hlabels
  · rw [hnamesBelow, hnames, ← declareAll_append, labels_node]
    cases hname : source.variableName? <;> simp [hname]
  · rw [hblocksBelow _ _ _ hblocks rfl, BlockTree.linked]
    have hnone : (block.hangAll (below.map (fun branch => (branch.1, branch.2.label.id)))).parent =
        none := by
      rw [Block.parent_hangAll, hbare.parent]
    rw [← hnone, Block.hungAt_parent, nil_append]

theorem yields_attach {branch : Position × Sketch}
    (hload : ∀ {s t id}, Yields (load branch.2) s id t → TreeLoaded branch.2.tree s id t)
    (h : Yields (attach parent branch) s u t) :
    BranchesLoaded parent.id [(branch.1, branch.2.tree)] s t := by
  unfold attach at h
  simp only [yields_bind, yields_connect] at h
  obtain ⟨child, m₁, hchild, _, m₂, hnote, w, hconnect, rfl⟩ := h
  obtain ⟨hworkspace, hgenerated⟩ := yields_note hnote
  rw [hworkspace] at hconnect
  exact (hload hchild).branch hgenerated (eq_hang_of_connectAt hconnect)

theorem yields_forM_attach {branches : List (Position × Sketch)}
    (hload : ∀ branch ∈ branches, ∀ {s t id}, Yields (load branch.2) s id t →
      TreeLoaded branch.2.tree s id t) (h : Yields (forM branches (attach parent)) s u t) :
    BranchesLoaded parent.id (branches.map (fun branch => (branch.1, branch.2.tree))) s t := by
  induction branches generalizing s with
  | nil =>
    obtain rfl := yields_forM_nil.1 h
    exact branchesLoaded_nil parent.id s
  | cons branch rest ih =>
    obtain ⟨m, hfirst, hrest⟩ := yields_forM_cons.1 h
    exact (yields_attach (hload branch mem_cons_self) hfirst).append
      (ih (forall_mem_cons.1 hload).2 hrest)

theorem yields_load (sketch : Sketch) (h : Yields (load sketch) s id t) :
    TreeLoaded sketch.tree s id t := by
  induction sketch using Sketch.ind generalizing s t id with
  | mk sketch ih =>
    rw [load_eq] at h
    simp only [yields_bind, yields_pure] at h
    obtain ⟨block, m, henter, _, _, hbranches, rfl, rfl⟩ := h
    rw [Sketch.tree_eq]
    exact TreeLoaded.ofEnter henter (yields_forM_attach ih hbranches)

/-! ## Documents -/

/-- All elements of a document, with the forest and the variables that they give. -/
theorem yields_forM_loadElement {elements : List Element}
    (h : Yields (forM elements loadElement) s u t) :
    ∃ forest : List (BlockTree Block),
      BlockTree.numberForest ((elements.filter Xml.Element.isBlock).map Xml.Element.outline)
          s.generated = (forest.map (BlockTree.map Block.label), t.generated) ∧
      (∀ tree ∈ forest, ∀ block ∈ tree.labels, block.Bare) ∧
      t.workspace.variableNames =
        declareAll s.workspace.variableNames (elements.flatMap Xml.Element.variablesIn) ∧
      t.workspace.blocks = s.workspace.blocks ++ forest.flatMap (BlockTree.linked none) := by
  induction elements generalizing s with
  | nil =>
    obtain rfl := yields_forM_nil.1 h
    exact ⟨[], rfl, by simp, rfl, by simp⟩
  | cons element rest ih =>
    obtain ⟨m, helement, hrest⟩ := yields_forM_cons.1 h
    obtain ⟨forest, hnumber, hbare, hnames, hblocks⟩ := ih hrest
    rw [flatMap_cons, declareAll_append]
    unfold loadElement at helement
    split at helement
    · rename_i hname
      have hblock : element.isBlock = true := hname
      simp only [yields_bind, yields_pure] at helement
      obtain ⟨id, _, hload, -, rfl⟩ := helement
      have hloaded := yields_load _ hload
      rw [Sketch.tree_ofElement] at hloaded
      obtain ⟨tree, hnumberTree, hbareTree, -, hnamesTree, hblocksTree⟩ := hloaded
      refine ⟨tree :: forest, ?_, ?_, ?_, ?_⟩
      · rw [filter_cons_of_pos hblock, map_cons, BlockTree.numberForest, hnumberTree, hnumber]
        rfl
      · intro other hother
        rcases mem_cons.1 hother with rfl | hother
        · exact hbareTree
        · exact hbare other hother
      · rw [hnames, hnamesTree, Xml.Element.variablesIn, if_pos hblock]
      · rw [hblocks, hblocksTree, flatMap_cons, append_assoc]
    · rename_i hname
      have hblock : ¬ element.isBlock = true := hname
      have hfilter : (element :: rest).filter Xml.Element.isBlock =
          rest.filter Xml.Element.isBlock := filter_cons_of_neg hblock
      rw [hfilter]
      split at helement
      · rename_i hvariables
        obtain rfl := yields_modify.1 helement
        refine ⟨forest, hnumber, hbare, ?_, ?_⟩
        · rw [hnames, variableNames_foldl_declareVariable, Xml.Element.variablesIn, if_neg hblock,
            if_pos hvariables]
        · rw [hblocks, blocks_foldl_declareVariable]
      · rename_i hvariables
        obtain rfl := yields_record.1 helement
        refine ⟨forest, hnumber, hbare, ?_, hblocks⟩
        rw [hnames, Xml.Element.variablesIn, if_neg hblock, if_neg hvariables]
        rfl

/-- What the elements give is validated and then given back as it is. -/
theorem yields_loadWorkspace {root : Element} :
    Yields (loadWorkspace root) s w t ↔
      ∃ m, Yields (forM root.children loadElement) s () m ∧ m.workspace = w ∧
        w.validate = .ok () ∧ t = { m with events := .loaded w.size :: m.events } := by
  unfold loadWorkspace
  simp only [forM_eq_forM, yields_bind, yields_get, yields_liftM, yields_record, yields_pure]
  constructor
  · rintro ⟨_, m, hload, _, _, ⟨rfl, rfl⟩, _, _, ⟨hvalid, rfl⟩, _, _, rfl, rfl, rfl⟩
    exact ⟨m, hload, rfl, hvalid, rfl⟩
  · rintro ⟨m, hload, rfl, hvalid, rfl⟩
    exact ⟨(), m, hload, m, m, ⟨rfl, rfl⟩, (), m, ⟨hvalid, rfl⟩, (), _, rfl, rfl, rfl⟩

end Loader

end RobotBlocks
