import RobotBlocks.Proofs.NameTable.FreeNumber
import RobotBlocks.Proofs.Program.LinkFaults
import RobotBlocks.Proofs.Program.Shapes

/-!
# The identities of loaded blocks

A block has the identity that it states, or the next generated one. Loading enters the blocks in the
order of the document and stops at the first identity that is there already (`Enters`). Generated
identities differ from one another, but their numbers are not compared with what other blocks state.
So a document has a duplicate if two blocks state one identity, and also if a block states one that
loading generates for another (`duplicates_are_stated`).
-/

set_option autoImplicit false

namespace RobotBlocks

open List
open Program (ofRoot)

open RobotBlocks.Xml (Element)

/-! ## Identities in a document -/

variable {id : String}

namespace BlockSource

/-- The identity that a block states. -/
def stated? (source : BlockSource) : Option String :=
  (source.attributes.get? "id").filter (fun id => !id.isEmpty)

/-- How many of some blocks state no identity. -/
def unnamed (sources : List BlockSource) : Nat :=
  sources.countP (fun source => source.stated?.isNone)

/-- The identities of blocks that are entered one after the other. -/
def identities : List BlockSource → (generated : Nat) → List String
  | [], _ => []
  | source :: rest, generated =>
    (source.identity generated).1 :: identities rest (source.identity generated).2

/-- An identity is met twice: two blocks state it, or one states what is generated for another. -/
def Collides (sources : List BlockSource) (id : String) : Prop :=
  2 ≤ (sources.filterMap stated?).count id ∨
    id ∈ sources.filterMap stated? ∧
      ∃ k, 0 < k ∧ k ≤ unnamed sources ∧ id = "gen-" ++ toString k

variable {source : BlockSource}

theorem identity_of_stated? (h : source.stated? = some id) (generated : Nat) :
    source.identity generated = (id, generated) := by
  unfold stated? at h
  simp only [identity, h]

theorem identity_of_unstated (h : source.stated? = none) (generated : Nat) :
    source.identity generated = ("gen-" ++ toString (generated + 1), generated + 1) := by
  unfold stated? at h
  simp only [identity, h]

theorem snd_identity (source : BlockSource) (generated : Nat) :
    (source.identity generated).2 = generated + unnamed [source] := by
  cases h : source.stated? with
  | some id => simp [identity_of_stated? h, unnamed, h]
  | none => simp [identity_of_unstated h, unnamed, h]

theorem unnamed_append (front back : List BlockSource) :
    unnamed (front ++ back) = unnamed front + unnamed back :=
  countP_append

theorem identities_append (front back : List BlockSource) (generated : Nat) :
    identities (front ++ back) generated =
      identities front generated ++ identities back (generated + unnamed front) := by
  induction front generalizing generated with
  | nil => rfl
  | cons source rest ih =>
    have hunnamed : unnamed (source :: rest) = unnamed [source] + unnamed rest :=
      unnamed_append [source] rest
    rw [cons_append, identities, identities, ih, snd_identity, hunnamed, Nat.add_assoc, cons_append]

/-- Identities are those that are stated and as many generated ones as are missing. -/
theorem identities_perm (sources : List BlockSource) (generated : Nat) :
    (identities sources generated).Perm (sources.filterMap stated? ++
      (List.range' (generated + 1) (unnamed sources)).map (fun k => "gen-" ++ toString k)) := by
  induction sources generalizing generated with
  | nil => exact .refl _
  | cons source rest ih =>
    rw [identities]
    cases h : source.stated? with
    | some id =>
      rw [identity_of_stated? h, filterMap_cons_some h]
      simpa [unnamed, h] using ih generated
    | none =>
      rw [identity_of_unstated h, filterMap_cons_none h]
      have hunnamed : unnamed (source :: rest) = unnamed rest + 1 := by simp [unnamed, h]
      rw [hunnamed, range'_succ, map_cons]
      exact ((ih (generated + 1)).cons _).trans perm_middle.symm

/-- Generated identities differ from one another, so that no two of them collide. -/
theorem two_le_count_identities_iff {sources : List BlockSource} :
    2 ≤ (identities sources 0).count id ↔ Collides sources id := by
  let numbers := List.range' 1 (unnamed sources)
  have hnodup : (numbers.map (fun k => "gen-" ++ toString k)).Nodup :=
    List.Nodup.map (NameTable.append_toString_injective "gen-") nodup_range'
  have hone := nodup_iff_count_le_one.1 hnodup id
  have hgenerated : 0 < (numbers.map (fun k => "gen-" ++ toString k)).count id ↔
      ∃ k, 0 < k ∧ k ≤ unnamed sources ∧ id = "gen-" ++ toString k := by
    rw [count_pos_iff, mem_map]
    constructor
    · rintro ⟨k, hk, rfl⟩
      have := mem_range'_1.1 hk
      exact ⟨k, by omega, by omega, rfl⟩
    · rintro ⟨k, hpos, hle, rfl⟩
      exact ⟨k, mem_range'_1.2 ⟨hpos, by omega⟩, rfl⟩
  have hcount : (identities sources 0).count id = (sources.filterMap stated?).count id +
      (numbers.map (fun k => "gen-" ++ toString k)).count id := by
    rw [(identities_perm sources 0).count_eq, count_append, Nat.zero_add]
  rw [Collides, ← hgenerated, ← count_pos_iff, hcount]
  omega

end BlockSource

open BlockSource (identities unnamed Collides)

def Loading.ids (state : Loading) : List String := state.workspace.blocks.map Block.id

/-! ## Steps that enter blocks -/

namespace Loader

variable {α β : Type}

def isDuplicate (fault : Fault) : Prop := ∃ id, fault = .duplicateBlock id

/-- A step that enters some blocks one after the other. It fails by a duplicate only if the identity
is there already or is met twice among the new ones. -/
structure Enters (sources : List BlockSource) (action : Loader α) : Prop where
  yields : ∀ {s a t}, Yields action s a t →
    t.ids = s.ids ++ identities sources s.generated ∧
      t.generated = s.generated + unnamed sources
  fails : ∀ {s id t}, Fails action s (.duplicateBlock id) t →
    2 ≤ (s.ids ++ identities sources s.generated).count id

/-- A step that leaves the identities as they are and reports no duplicate. -/
theorem enters_of_quiet {action : Loader α}
    (h : ∀ {s a t}, Yields action s a t → t.ids = s.ids ∧ t.generated = s.generated)
    (hfails : FailsOnly (¬ isDuplicate ·) action) : Enters [] action where
  yields := by
    intro s a t hyields
    obtain ⟨hids, hgenerated⟩ := h hyields
    simpa [identities, unnamed] using ⟨hids, hgenerated⟩
  fails := fun hduplicate => absurd ⟨_, rfl⟩ (hfails _ _ _ hduplicate)

/-- Two steps enter their blocks one after the other. -/
theorem Enters.bind {front back : List BlockSource} {action : Loader α} {next : α → Loader β}
    (h : Enters front action) (hnext : ∀ a, Enters back (next a)) :
    Enters (front ++ back) (action >>= next) where
  yields := by
    intro s b t hyields
    obtain ⟨a, m, hfirst, hsecond⟩ := yields_bind.1 hyields
    obtain ⟨hids, hgenerated⟩ := h.yields hfirst
    obtain ⟨hids', hgenerated'⟩ := (hnext a).yields hsecond
    rw [hids', hids, hgenerated', hgenerated, BlockSource.identities_append,
      BlockSource.unnamed_append, append_assoc, Nat.add_assoc]
    exact ⟨rfl, rfl⟩
  fails := by
    intro s id t hfails
    rw [BlockSource.identities_append, ← append_assoc]
    rcases fails_bind.1 hfails with hfirst | ⟨a, m, hfirst, hsecond⟩
    · rw [count_append]
      exact Nat.le_add_right_of_le (h.fails hfirst)
    · obtain ⟨hids, hgenerated⟩ := h.yields hfirst
      rw [← hids, ← hgenerated]
      exact (hnext a).fails hsecond

/-- One block is entered with the identity it is due, or is the duplicate. -/
theorem enters_enter (source : BlockSource) : Enters [source] (enter source) where
  yields := by
    intro s block t h
    obtain ⟨-, hlabel, hgenerated, hblocks, -⟩ := yields_enter h
    have hid : block.id = (source.identity s.generated).1 := congrArg Label.id hlabel
    rw [Loading.ids, hblocks, hgenerated, BlockSource.snd_identity]
    simp [Loading.ids, identities, hid]
  fails := by
    intro s id t h
    unfold enter at h
    rcases fails_bind.1 h with h | ⟨block, m₁, hblockOf, h⟩
    · exact (failsOnly_blockOf source _ _ _ h).elim
    obtain ⟨-, hkind, htype, hlabel, -, hworkspace⟩ := yields_blockOf hblockOf
    rcases fails_bind.1 h with h | ⟨_, m₂, hdeclare, h⟩
    · exact (failsOnly_declareVariableOf block _ _ _ h).elim
    obtain ⟨hblocks, -⟩ :=
      yields_declareVariableOf hdeclare hkind htype (congrArg Label.fields hlabel)
    simp only [fails_bind, fails_get, yields_get, fails_liftM, fails_modify, fails_pure, false_or,
      and_false, exists_false, or_false] at h
    obtain ⟨_, _, ⟨rfl, rfl⟩, hinsert, -⟩ := h
    unfold Workspace.insert at hinsert
    split at hinsert
    · rename_i found hfound
      cases hinsert
      have hmem : block.id ∈ s.ids := by
        rw [Loading.ids, ← hworkspace, ← hblocks]
        exact mem_map.2 ⟨found, mem_of_find?_eq_some hfound, by simpa using find?_some hfound⟩
      have hid : block.id = (source.identity s.generated).1 := congrArg Label.id hlabel
      rw [count_append, identities, identities, ← hid, count_singleton_self]
      have := count_pos_iff.2 hmem
      omega
    · cases hinsert

/-- A change of one block leaves all identities as they are. -/
theorem ids_modify (w : Workspace) (id : String) (change : Block → Block)
    (keepsId : ∀ block, (change block).id = block.id) :
    (w.modify id change keepsId).blocks.map Block.id = w.blocks.map Block.id := by
  show (w.blocks.map _).map Block.id = _
  rw [map_map]
  refine map_congr_left (fun block _ => ?_)
  simp only [Function.comp]
  split
  · exact keepsId block
  · rfl

theorem not_isDuplicate_connectAt {w w' : Workspace} {parent child : String} {position : Position}
    {fault : Fault} (h : w.connectAt parent position child = (.error fault, w')) :
    ¬ isDuplicate fault := by
  rintro ⟨id, rfl⟩
  cases position <;>
    simp only [Workspace.connectAt, Workspace.connectValue, Workspace.connectStatement,
      Workspace.connectNext, Workspace.connect, Workspace.adopt, Workspace.block, bind,
      Except.bind] at h <;>
    grind

theorem enters_connect (parent : String) (position : Position) (child : String) :
    Enters [] (connect (fun w => w.connectAt parent position child)) := by
  refine enters_of_quiet ?_ ?_
  · intro s _ t h
    obtain ⟨w, hconnected, rfl⟩ := yields_connect.1 h
    refine ⟨?_, rfl⟩
    show w.blocks.map Block.id = s.ids
    rw [eq_hang_of_connectAt hconnected, hang, ids_modify, Workspace.setParent, ids_modify]
    rfl
  · intro s fault t h
    unfold connect at h
    simp only [fails_bind, fails_get, yields_get, fails_liftM, fails_modify, yields_modify,
      false_or] at h
    obtain ⟨_, _, ⟨rfl, rfl⟩, _, _, -, hfault, -⟩ := h
    exact not_isDuplicate_connectAt (Prod.ext hfault rfl)

theorem composes_enters : Composes @Enters where
  pure a := by
    refine enters_of_quiet (fun h => ?_) (.pure a)
    obtain ⟨-, rfl⟩ := yields_pure.1 h
    exact ⟨rfl, rfl⟩
  bind := .bind
  record event := by
    refine enters_of_quiet (fun h => ?_) (.modify _)
    rw [yields_record.1 h]
    exact ⟨rfl, rfl⟩
  enter := enters_enter
  connect := enters_connect
  declare names := by
    refine enters_of_quiet (fun h => ?_) (.modify _)
    rw [← yields_modify.1 h]
    exact ⟨congrArg (List.map Block.id) (blocks_foldl_declareVariable _ _), rfl⟩

end Loader

/-! ## Documents -/

/-- What a document says about its blocks, in the order in which they are entered. -/
def Xml.Element.sources (root : Element) : List BlockSource :=
  root.outlines.flatMap BlockTree.labels

section

variable {root : Element} {document : Option String} {s t : Loading}

/-- A duplicate is reported only for an identity that is met twice. -/
theorem collides_of_fails_ofRoot (hname : root.name = "xml")
    (h : Fails (ofRoot root document) {} (.duplicateBlock id) t) : Collides root.sources id := by
  rcases (fails_ofRoot hname).1 h with ⟨text, -, hread, -⟩ | ⟨-, hload⟩
  · rcases eq_of_readRegistration_eq_error hread with hfault | ⟨flavor, hfault⟩ <;> cases hfault
  · rcases Loader.fails_loadWorkspace.1 hload with helements | ⟨helements, hvalidate⟩
    · have hcount := (Loader.composes_enters.forM_loadElement root.children).fails helements
      exact BlockSource.two_le_count_identities_iff.1 hcount
    · rcases validate_cases_of_loaded helements with ⟨hvalid, -⟩ | ⟨ids, hfault, -⟩
      · rw [hvalid] at hvalidate
        cases hvalidate
      · rw [hfault] at hvalidate
        cases hvalidate

theorem not_collides_of_yields_ofRoot {program : Program}
    (h : Yields (ofRoot root document) {} program t) (id : String) :
    ¬ Collides root.sources id := by
  obtain ⟨-, hload, -⟩ := yields_ofRoot.1 h
  obtain ⟨m, helements, -⟩ := Loader.yields_loadWorkspace.1 hload
  obtain ⟨hids, -⟩ := (Loader.composes_enters.forM_loadElement root.children).yields helements
  have hnodup : (identities root.sources 0).Nodup := by
    have hdistinct : m.ids.Nodup := m.workspace.distinct
    rwa [hids] at hdistinct
  rw [← BlockSource.two_le_count_identities_iff, not_le, Nat.lt_succ_iff]
  exact nodup_iff_count_le_one.1 hnodup id

end

/-- A document reports a duplicate only for an identity that two of its blocks state or that one
states while loading generates it for another, and a document with such an identity never loads. So if
nothing else is wrong with it, it reports a duplicate exactly then. -/
theorem duplicates_are_stated {root : Element} {document : Option String}
    (hname : root.name = "xml") :
    (∀ id t, Fails (ofRoot root document) {} (.duplicateBlock id) t →
        Collides root.sources id ∧
          Fault.message (.duplicateBlock id) = "Duplicate block id '" ++ id ++ "'.") ∧
      ((∃ id, Collides root.sources id) →
        ∃ fault t, Fails (ofRoot root document) {} fault t) ∧
      ((∀ fault t, Fails (ofRoot root document) {} fault t →
          ∃ id, fault = .duplicateBlock id) →
        ((∃ id t, Fails (ofRoot root document) {} (.duplicateBlock id) t) ↔
          ∃ id, Collides root.sources id)) := by
  have hnever : (∃ id, Collides root.sources id) →
      ∃ fault t, Fails (ofRoot root document) {} fault t := by
    rintro ⟨id, hcollides⟩
    rcases yields_or_fails (ofRoot root document) {} with ⟨program, t, h⟩ | ⟨fault, t, h⟩
    · exact absurd hcollides (not_collides_of_yields_ofRoot h id)
    · exact ⟨fault, t, h⟩
  refine ⟨fun id t h => ⟨collides_of_fails_ofRoot hname h, rfl⟩, hnever, fun honly => ⟨?_, ?_⟩⟩
  · rintro ⟨id, t, h⟩
    exact ⟨id, collides_of_fails_ofRoot hname h⟩
  · intro hcollides
    obtain ⟨fault, t, h⟩ := hnever hcollides
    obtain ⟨id, rfl⟩ := honly fault t h
    exact ⟨id, t, h⟩

open Xml.Element in
/-- A block that states the second generated identity, before two blocks that state none. -/
def numberedDocument : Element :=
  withAttributes "xml" []
    [blockOf "telemetry_update" "gen-2" [],
      withAttributes "block" [("type", "controls_repeat_ext")]
        [valueOf "TIMES" (withAttributes "shadow" [("type", "math_number")] [fieldOf "NUM" "3"])]]

theorem fails_numberedDocument :
    ∃ t, Fails (ofRoot numberedDocument none) {} (.duplicateBlock "gen-2") t := by
  have hfirst : ((forM numberedDocument.children Loader.loadElement).run.run {}).1 =
      .error (.duplicateBlock "gen-2") := by
    decide
  have helements : Fails (forM numberedDocument.children Loader.loadElement) {}
      (.duplicateBlock "gen-2") _ := fails_of_fst_run_eq hfirst
  exact ⟨_, (fails_ofRoot rfl).2 (.inr ⟨by simp, Loader.fails_loadWorkspace.2 (.inl helements)⟩)⟩

/-- The identity of the first block collides with the one that the last block gets. -/
theorem numberedDocument_collides :
    numberedDocument.name = "xml" ∧ Collides numberedDocument.sources "gen-2" := by
  obtain ⟨t, h⟩ := fails_numberedDocument
  exact ⟨rfl, ((duplicates_are_stated rfl).1 "gen-2" t h).1⟩

/-- No two blocks of the document state one identity, and yet it has a duplicate. -/
theorem stated_identity_is_generated_again :
    (numberedDocument.sources.filterMap BlockSource.stated?).Nodup ∧
      ∃ t, Fails (ofRoot numberedDocument none) {} (.duplicateBlock "gen-2") t := by
  refine ⟨?_, fails_numberedDocument⟩
  have houtlines : numberedDocument.outlines =
      (numberedDocument.children.filter Xml.Element.isBlock).map
        (fun element => (Sketch.ofElement element).tree) := by
    simp only [Xml.Element.outlines, Sketch.tree_ofElement]
  rw [Xml.Element.sources, houtlines]
  decide

end RobotBlocks
