import RobotBlocks.Proofs.Program.Refinement
import RobotBlocks.Proofs.Render.Holding
import RobotBlocks.Proofs.Workspace.Links

/-!
# Shapes of loaded blocks

Loading gives a block its shape when it enters it, by its kind and its mutation, and no link changes
the shape later. A mutation is kept only for the kinds that take one. In a program that was loaded,
a block of any other kind therefore has the shape of its kind (`Block.Shaped.shape_eq`).
-/

set_option autoImplicit false

namespace RobotBlocks

open List

open RobotBlocks.Xml (Element)

/-- A block has the shape that its kind and its mutation give it, and a mutation only if its kind
takes one. -/
structure Block.Shaped (block : Block) : Prop where
  applyMutation_eq : block.applyMutation = block
  mutation_eq : block.kind.takesMutation = false → block.mutation = none

def Workspace.Shaped (w : Workspace) : Prop := ∀ block ∈ w.blocks, block.Shaped

namespace Block.Shaped

variable {block : Block}

/-- Two blocks that differ in links only. -/
theorem congr {block' : Block} (h : block.Shaped) (hkind : block'.kind = block.kind)
    (hmutation : block'.mutation = block.mutation) (hshape : block'.shape = block.shape) :
    block'.Shaped := by
  have hown : block'.applyMutation.shape = block'.shape := by
    have happly : block.applyMutation.shape = block.shape := by rw [h.applyMutation_eq]
    rw [hshape, ← happly]
    unfold applyMutation
    rw [hkind, hmutation]
  refine ⟨?_, fun htakes => ?_⟩
  · calc block'.applyMutation = { block' with shape := block'.applyMutation.shape } := rfl
      _ = block' := by rw [hown]
  · rw [hmutation, h.mutation_eq (hkind ▸ htakes)]

theorem hang (h : block.Shaped) (position : Position) (child : String) :
    (block.hang position child).Shaped := by
  cases position <;> exact h.congr rfl rfl rfl

/-- A block of a kind that takes no mutation has the shape of its kind. -/
theorem isPlain (h : block.Shaped) (htakes : block.kind.takesMutation = false) : block.IsPlain := by
  refine ⟨h.applyMutation_eq, fun mutation hmutation => ?_⟩
  rw [h.mutation_eq htakes] at hmutation
  cases hmutation

theorem shape_eq (h : block.Shaped) (htakes : block.kind.takesMutation = false) :
    block.shape = Shape.ofKind block.kind := by
  have happly : block.applyMutation.shape = block.shape := by rw [h.applyMutation_eq]
  rw [← happly]
  unfold applyMutation
  rw [h.mutation_eq htakes]

end Block.Shaped

namespace Workspace.Shaped

variable {w : Workspace}

theorem modify (h : w.Shaped) {id : String} {change : Block → Block}
    {keepsId : ∀ block, (change block).id = block.id}
    (hchange : ∀ block : Block, block.Shaped → (change block).Shaped) :
    (w.modify id change keepsId).Shaped := by
  intro block hblock
  obtain ⟨before, hbefore, rfl⟩ := mem_map.1 hblock
  split
  · exact hchange before (h before hbefore)
  · exact h before hbefore

theorem hang (h : w.Shaped) (parent : String) (position : Position) (child : String) :
    (Loader.hang w parent position child).Shaped := by
  have hadopted : (w.setParent child (position.link parent)).Shaped :=
    h.modify fun _ hblock => hblock.congr rfl rfl rfl
  exact hadopted.modify fun _ hblock => hblock.hang position child

end Workspace.Shaped

/-! ## Steps of loading -/

namespace Loader

/-- A property of steps of loading and the blocks that they enter, which goes from single steps to
longer ones. -/
structure Composes (P : (α : Type) → List BlockSource → Loader α → Prop) : Prop where
  pure {α : Type} (a : α) : P α [] (pure a)
  bind {α β : Type} {front back : List BlockSource} {action : Loader α} {next : α → Loader β} :
    P α front action → (∀ a, P β back (next a)) → P β (front ++ back) (action >>= next)
  record (event : Event) : P Unit [] (record event)
  enter (source : BlockSource) : P Block [source] (enter source)
  connect (parent : String) (position : Position) (child : String) :
    P Unit [] (connect (fun w => w.connectAt parent position child))
  declare (names : List String) : P PUnit [] (modify fun state =>
    { state with workspace := names.foldl Workspace.declareVariable state.workspace })

namespace Composes

variable {P : (α : Type) → List BlockSource → Loader α → Prop}

theorem attach (h : Composes P) (parent : Block) {branch : Position × Sketch}
    (hload : P String branch.2.tree.labels (Loader.load branch.2)) :
    P Unit branch.2.tree.labels (attach parent branch) := by
  have hnote : P Unit [] (note parent branch.1) := by
    unfold note
    split
    · split
      · exact h.record _
      · exact h.pure ()
    · exact h.pure ()
  unfold Loader.attach
  simpa using h.bind hload fun child => h.bind hnote fun _ => h.connect parent.id branch.1 child

/-- What composes over steps holds of loading a whole sketch. -/
theorem load (h : Composes P) (sketch : Sketch) : P String sketch.tree.labels (load sketch) := by
  induction sketch using Sketch.ind with
  | mk sketch ih =>
    have hall : ∀ (parent : Block) (branches : List (Position × Sketch)),
        (∀ branch ∈ branches, P String branch.2.tree.labels (Loader.load branch.2)) →
          P PUnit (branches.flatMap (fun branch => branch.2.tree.labels))
            (forM branches (Loader.attach parent)) := by
      intro parent branches hbranches
      induction branches with
      | nil => exact h.pure _
      | cons branch rest ihrest =>
        rw [forM_cons, flatMap_cons]
        exact h.bind (h.attach parent (hbranches branch mem_cons_self)) fun _ =>
          ihrest (forall_mem_cons.1 hbranches).2
    rw [load_eq, Sketch.tree_eq, BlockTree.labels_node, flatMap_map]
    have hrest := fun block : Block =>
      h.bind (hall block sketch.branches ih) fun _ =>
        h.pure block.id
    simpa using h.bind (h.enter sketch.source) hrest

theorem forM_loadElement (h : Composes P) (elements : List Element) :
    P PUnit (((elements.filter Element.isBlock).map Element.outline).flatMap BlockTree.labels)
      (forM elements loadElement) := by
  induction elements with
  | nil => exact h.pure _
  | cons element rest ih =>
    rw [forM_cons]
    by_cases hblock : element.isBlock = true
    · rw [filter_cons_of_pos hblock, map_cons, flatMap_cons, ← Sketch.tree_ofElement]
      unfold Element.isBlock at hblock
      rw [loadElement, if_pos hblock]
      refine h.bind ?_ fun _ => ih
      simpa using h.bind (h.load (Sketch.ofElement element)) fun _ => h.pure ()
    · rw [filter_cons_of_neg hblock]
      unfold Element.isBlock at hblock
      have helement : P PUnit [] (loadElement element) := by
        rw [loadElement, if_neg hblock]
        split
        · exact h.declare _
        · exact h.record _
      exact h.bind helement fun _ => ih

end Composes

/-- A step of loading that ends well leaves blocks with their shapes if it finds such blocks. -/
def KeepsShapes {α : Type} (action : Loader α) : Prop :=
  ∀ s a t, Yields action s a t → s.workspace.Shaped → t.workspace.Shaped

variable {source : BlockSource}

/-- Only kinds that take a mutation get one. -/
theorem mutation_eq_none_of_yields {id typeName : String} {kind : BlockKind}
    {mutation : Option Mutation} {s t : Loading}
    (h : Yields (mutationOf id typeName kind source) s mutation t)
    (htakes : kind.takesMutation = false) : mutation = none := by
  unfold mutationOf at h
  split at h
  · rw [if_neg (by simp [htakes])] at h
    obtain ⟨_, _, -, h⟩ := yields_bind.1 h
    exact (yields_pure.1 h).1.symm
  · split at h
    · exact absurd h yields_throw
    · exact (yields_pure.1 h).1.symm

theorem shaped_of_yields_blockOf {block : Block} {s t : Loading}
    (h : Yields (blockOf source) s block t) : block.Shaped := by
  unfold blockOf at h
  simp only [yields_bind, yields_pure] at h
  obtain ⟨id, _, -, stated, _, -, _, _, -, mutation, _, hmutation, rfl, -⟩ := h
  exact ⟨rfl, mutation_eq_none_of_yields hmutation⟩

theorem keepsShapes_enter (source : BlockSource) : KeepsShapes (enter source) := by
  intro s block t h hshaped
  have hblocks : t.workspace.blocks = s.workspace.blocks ++ [block] := (yields_enter h).2.2.2.1
  have hblock : block.Shaped := by
    unfold enter at h
    obtain ⟨entered, _, hblockOf, h⟩ := yields_bind.1 h
    simp only [yields_bind, yields_pure] at h
    obtain ⟨_, _, -, _, _, -, _, _, -, _, _, -, rfl, -⟩ := h
    exact shaped_of_yields_blockOf hblockOf
  intro other hother
  rw [hblocks] at hother
  rcases mem_append.1 hother with hbefore | hnew
  · exact hshaped other hbefore
  · rw [mem_singleton.1 hnew]
    exact hblock

theorem composes_keepsShapes : Composes fun _ _ => KeepsShapes where
  pure a s b t h hshaped := by
    obtain ⟨-, rfl⟩ := yields_pure.1 h
    exact hshaped
  bind h hnext s b t hyields hshaped := by
    obtain ⟨a, m, hfirst, hsecond⟩ := yields_bind.1 hyields
    exact hnext a m b t hsecond (h s a m hfirst hshaped)
  record event s u t h hshaped := by
    rw [yields_record.1 h]
    exact hshaped
  enter := keepsShapes_enter
  connect parent position child s u t h hshaped := by
    obtain ⟨w, hconnected, rfl⟩ := yields_connect.1 h
    rw [eq_hang_of_connectAt hconnected]
    exact hshaped.hang parent position child
  declare names s u t h hshaped := by
    rw [← yields_modify.1 h]
    intro block hblock
    rw [blocks_foldl_declareVariable] at hblock
    exact hshaped block hblock

end Loader

/-- The blocks of a program that was loaded have the shapes of their kinds and mutations, and its
links passed the check. -/
theorem shaped_and_valid_of_loaded {root : Element} {document : Option String} {program : Program}
    {loading : Loading} (h : Yields (Program.ofRoot root document) {} program loading) :
    program.workspace.Shaped ∧ program.workspace.validate = .ok () := by
  obtain ⟨-, hload, -⟩ := yields_ofRoot.1 h
  obtain ⟨m, helements, hworkspace, hvalid, -⟩ := Loader.yields_loadWorkspace.1 hload
  refine ⟨?_, hvalid⟩
  rw [← hworkspace]
  refine Loader.composes_keepsShapes.forM_loadElement root.children _ _ m helements ?_
  intro block hblock
  cases hblock

end RobotBlocks
