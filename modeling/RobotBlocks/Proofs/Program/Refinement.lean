import RobotBlocks.Proofs.Program.Loading
import RobotBlocks.Proofs.Workspace.Order

/-!
# Loaded workspaces are what their documents say

A document that loads leaves a workspace that, read from its roots, is the forest that the document
describes. Loading lists the linked blocks of that forest (`yields_forM_loadElement`). The check at the
end of loading makes sure that no branch was lost (`Workspace.complete_of_validate`), so that
the links can be read back.
-/

set_option autoImplicit false

namespace RobotBlocks

open Workspace
open Program (ofRoot)

open RobotBlocks.Xml (Element)

/-- What a program is loaded from: its root, its blocks and its registration. -/
theorem yields_ofRoot {root : Element} {document : Option String} {s t : Loading}
    {program : Program} :
    Yields (ofRoot root document) s program t ↔
      root.name = "xml" ∧ Yields (Loader.loadWorkspace root) s program.workspace t ∧
        (match document with
          | some text => Program.readRegistration text
          | none => .ok {}) = .ok program.registration := by
  obtain ⟨workspace, registration⟩ := program
  unfold ofRoot
  by_cases hname : root.name = "xml"
  · cases document with
    | none => simp [hname]
    | some text =>
      simp only [hname, ne_eq, not_true_eq_false, ↓reduceIte, yields_bind, yields_liftM,
        yields_pure, Program.mk.injEq, true_and]
      constructor
      · rintro ⟨_, _, ⟨hread, rfl⟩, _, _, hload, ⟨rfl, rfl⟩, rfl⟩
        exact ⟨hload, hread⟩
      · rintro ⟨hload, hread⟩
        exact ⟨_, _, ⟨hread, rfl⟩, _, _, hload, ⟨rfl, rfl⟩, rfl⟩
  · simp [hname]

theorem exists_yields_ofRoot {root : Element} {m : Loading} (hname : root.name = "xml")
    (hload : Yields (forM root.children Loader.loadElement) {} () m)
    (hvalid : m.workspace.validate = .ok ()) :
    ∃ loading, Yields (ofRoot root none) {} { workspace := m.workspace } loading :=
  ⟨_, yields_ofRoot.2 ⟨hname, Loader.yields_loadWorkspace.2 ⟨m, hload, rfl, hvalid, rfl⟩, rfl⟩⟩

/-- Loading refines reading: the workspace of a document that loads, read from its roots along its
links, is the forest that the document describes, up to the order of the roots. It has a block for
every element that counts, every link upwards names the position of its block, and the variables are
those that a walk through the document meets, each where it is met first. -/
theorem loaded_workspace_is_document {root : Element} {document : Option String}
    {program : Program} {loading : Loading}
    (h : Yields (ofRoot root document) {} program loading) :
    (program.workspace.roots.map (fun block => program.workspace.treeAt block.id)).Perm
        (root.forest.map (fun tree => some tree.sorted)) ∧
      program.workspace.roots.Pairwise (fun a b => a.before b = true) ∧
      program.workspace.size = (root.outlines.flatMap BlockTree.labels).length ∧
      (∀ block ∈ program.workspace.blocks, ∀ link, block.parent = some link →
        ∃ parent, program.workspace.get? link.parent = some parent ∧
          parent.branch? link.position = some block.id) ∧
      program.workspace.variableNames = root.variableNames.eraseDups := by
  obtain ⟨-, hload, -⟩ := yields_ofRoot.1 h
  obtain ⟨m, helements, hworkspace, hvalid, -⟩ := Loader.yields_loadWorkspace.1 hload
  obtain ⟨forest, hnumber, hbare, hnames, hblocks⟩ := Loader.yields_forM_loadElement helements
  rw [hworkspace] at hnames hblocks
  have hlists : program.workspace.Lists forest := by simpa [Workspace.Lists] using hblocks
  have hcomplete := complete_of_validate hlists hbare hvalid
  have hforest : root.forest = forest.map (BlockTree.map Block.label) := congrArg Prod.fst hnumber
  refine ⟨?_, pairwise_roots _, ?_, ?_, ?_⟩
  · rw [hforest, List.map_map]
    exact map_treeAt_roots hlists hcomplete
  · have hsize : program.workspace.size = (forest.flatMap BlockTree.subtrees).length :=
      (forall₂_blocks hlists).length_eq
    have hlabels : (root.forest.flatMap BlockTree.labels).length =
        (forest.flatMap BlockTree.subtrees).length := by
      rw [hforest, List.flatMap_map]
      simp [List.length_flatMap, BlockTree.labels, BlockTree.subtrees_map]
    rw [hsize, ← hlabels]
    exact BlockTree.length_labels_numberForest root.outlines 0
  · intro block hblock link hparent
    exact branch?_of_parent hlists hcomplete hblock hparent
  · rw [hnames]
    exact declareAll_nil _

/-! ## A document -/

namespace Xml.Element

def withAttributes (tag : String) (attributes : List (String × String)) (children : List Element) :
    Element :=
  ⟨tag, Dict.ofList attributes, "", children⟩

def fieldOf (name text : String) : Element := ⟨"field", Dict.ofList [("name", name)], text, []⟩

def valueOf (socket : String) (child : Element) : Element :=
  withAttributes "value" [("name", socket)] [child]

def blockOf (typeName id : String) (children : List Element) : Element :=
  withAttributes "block" [("type", typeName), ("id", id)] children

end Xml.Element

open Xml.Element in
/-- A loop with a shadow for its number and two assignments, some of them without an identity. -/
def loopDocument : Element :=
  withAttributes "xml" []
    [withAttributes "variables" [] [⟨"variable", {}, "n", []⟩],
      withAttributes "block" [("type", "controls_repeat_ext")]
        [valueOf "TIMES" (withAttributes "shadow" [("type", "math_number")] [fieldOf "NUM" "3"]),
          withAttributes "statement" [("name", "DO")]
            [blockOf "variables_set" "s"
              [fieldOf "VAR" "m",
                valueOf "VALUE" (blockOf "variables_get" "t" [fieldOf "VAR" "n"]),
                withAttributes "next" [] [blockOf "variables_set" "u" [fieldOf "VAR" "k"]]]]]]

/-- What loading the elements of the loop leaves. -/
@[irreducible] def loopLoading : Loading := ((forM loopDocument.children Loader.loadElement).run.run {}).2

-- All at once, since most of the work is the same for each part.
theorem loopLoading_spec :
    (∃ loading,
      Yields (ofRoot loopDocument none) {} { workspace := loopLoading.workspace } loading) ∧
      loopLoading.workspace.size = 5 ∧
      loopLoading.workspace.variableNames = ["n", "m", "k"] := by
  have helements : Yields (forM loopDocument.children Loader.loadElement) {} () loopLoading := by
    unfold loopLoading
    exact yields_of_fst_run_eq (by decide +kernel)
  have hvalid : loopLoading.workspace.validate = .ok () := by
    rw [validate_of_sorted (by decide +kernel) (by decide +kernel)]
    decide +kernel
  exact ⟨exists_yields_ofRoot rfl helements hvalid, by decide +kernel, by decide +kernel⟩

/-- The loop is loaded as it is written, with five blocks and three variables. -/
theorem loopDocument_is_loaded :
    ∃ loading,
      Yields (ofRoot loopDocument none) {} { workspace := loopLoading.workspace } loading ∧
      (loopLoading.workspace.roots.map (fun block => loopLoading.workspace.treeAt block.id)).Perm
        (loopDocument.forest.map (fun tree => some tree.sorted)) ∧
      (loopDocument.outlines.flatMap BlockTree.labels).length = 5 ∧
      loopDocument.variableNames.eraseDups = ["n", "m", "k"] := by
  obtain ⟨⟨loading, hloads⟩, hfive, hthree⟩ := loopLoading_spec
  obtain ⟨hforest, -, hsize, -, hnames⟩ := loaded_workspace_is_document hloads
  exact ⟨loading, hloads, hforest, hsize.symm.trans hfive, hnames.symm.trans hthree⟩

end RobotBlocks
