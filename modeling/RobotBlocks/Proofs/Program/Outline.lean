import RobotBlocks.Program.Load
import RobotBlocks.Proofs.Workspace.Tree

/-!
# What a document says

A document is read here without a workspace. The outline of a block element is the tree of the elements
that count: at every value, statement and next holder the first block in it, or else the first
shadow, and of several next holders the last one. A walk through the outlines, a block before its
values, these before its statements and these before what comes next, gives numbers to the blocks
without an identity and meets the names of the variables.
-/

set_option autoImplicit false

namespace RobotBlocks

open List

open RobotBlocks.Xml (Element)

namespace Xml.Element

/-- The element that counts in a holder. -/
def connected? (holder : Element) : Option Element :=
  (holder.children.find? (fun element => element.name = "block")).or
    (holder.children.find? (fun element => element.name = "shadow"))

def withTag (element : Element) (tag : String) : List Element :=
  element.children.filter (fun child => child.name = tag)

/-- The elements that count in the holders of an element, each at the position that its holder names. -/
def branchesAt (element : Element) (tag : String) (position : String → Position) :
    List (Position × Element) :=
  (element.withTag tag).filterMap
    (fun holder => holder.connected?.map (fun child => (position (BlockSource.nameOf holder), child)))

/-- The elements directly below a block element. -/
def branches (element : Element) : List (Position × Element) :=
  element.branchesAt "value" .value ++ element.branchesAt "statement" .statement ++
    ((element.withTag "next").getLast?.bind connected?).toList.map (fun child => (.next, child))

theorem sizeOf_lt_of_mem {element child : Element} (h : child ∈ element.children) :
    sizeOf child < sizeOf element := by
  have hlt := List.sizeOf_lt_of_mem h
  obtain ⟨name, attributes, text, children⟩ := element
  simp only [mk.sizeOf_spec] at hlt ⊢
  omega

theorem sizeOf_lt_of_connected? {holder child : Element} (h : holder.connected? = some child) :
    sizeOf child < sizeOf holder := by
  refine sizeOf_lt_of_mem ?_
  rcases Option.or_eq_some_iff.1 h with h | ⟨-, h⟩ <;> exact mem_of_find?_eq_some h

theorem sizeOf_lt_of_mem_branches {element : Element} {branch : Position × Element}
    (h : branch ∈ element.branches) : sizeOf branch.2 < sizeOf element := by
  have hholder : ∀ {holder child : Element}, holder ∈ element.children →
      holder.connected? = some child → sizeOf child < sizeOf element :=
    fun hmem hchild => Nat.lt_trans (sizeOf_lt_of_connected? hchild) (sizeOf_lt_of_mem hmem)
  simp only [branches, branchesAt, withTag, mem_append, mem_filterMap, mem_map,
    Option.mem_toList, Option.map_eq_some_iff, Option.bind_eq_some_iff] at h
  rcases h with (⟨holder, hmem, child, hchild, rfl⟩ | ⟨holder, hmem, child, hchild, rfl⟩) |
    ⟨child, ⟨holder, hlast, hchild⟩, rfl⟩
  · exact hholder (mem_of_mem_filter hmem) hchild
  · exact hholder (mem_of_mem_filter hmem) hchild
  · exact hholder (mem_of_mem_filter (mem_of_getLast? hlast)) hchild

/-- The tree of what a document says about a block and about those below it. -/
def outline (element : Element) : BlockTree BlockSource :=
  .node (BlockSource.ofElement element)
    (element.branches.attach.map (fun branch => (branch.1.1, outline branch.1.2)))
termination_by sizeOf element
decreasing_by exact sizeOf_lt_of_mem_branches branch.2

theorem outline_eq (element : Element) :
    element.outline = .node (BlockSource.ofElement element)
      (element.branches.map (fun branch => (branch.1, branch.2.outline))) := by
  rw [outline]
  exact congrArg _
    (attach_map_val (f := fun branch : Position × Element => (branch.1, branch.2.outline)))

/-- Whether an element of the workspace is a block. -/
def isBlock (element : Element) : Bool := element.name = "block" || element.name = "shadow"

/-- The outlines of the blocks that stand directly in a document. -/
def outlines (root : Element) : List (BlockTree BlockSource) :=
  (root.children.filter isBlock).map outline

end Xml.Element

namespace BlockSource

/-- The identity of a block, and how many identities are generated then. -/
def identity (source : BlockSource) (generated : Nat) : String × Nat :=
  match (source.attributes.get? "id").filter (fun id => !id.isEmpty) with
  | some id => (id, generated)
  | none => ("gen-" ++ toString (generated + 1), generated + 1)

/-- What a document says about a block, apart from those below it. -/
def label (source : BlockSource) (id : String) : Label :=
  { id
    typeName := (source.attributes.get? "type").getD ""
    fields := source.fields
    comment := source.comment
    disabled := source.attributes.get? "disabled" = some "true"
    x := Loader.coordinate source.attributes "x"
    y := Loader.coordinate source.attributes "y" }

/-- The variable that a block is about. -/
def variableName? (source : BlockSource) : Option String :=
  if source.attributes.get? "type" = some "variables_get" ∨
      source.attributes.get? "type" = some "variables_set" then
    source.fields.get? "VAR"
  else none

end BlockSource

namespace BlockTree

mutual

/-- The tree with an identity for every block, and how many identities are generated then. -/
def number : BlockTree BlockSource → (generated : Nat) → BlockTree Label × Nat
  | node source branches, generated =>
    let own := source.identity generated
    let below := numberAll branches own.2
    (node (source.label own.1) below.1, below.2)

def numberAll : Branches BlockSource → (generated : Nat) →
    Branches Label × Nat
  | [], generated => ([], generated)
  | (position, tree) :: rest, generated =>
    let first := number tree generated
    let others := numberAll rest first.2
    ((position, first.1) :: others.1, others.2)

end

/-- The trees with an identity for every block, one tree after the other. -/
def numberForest : List (BlockTree BlockSource) → (generated : Nat) → List (BlockTree Label) × Nat
  | [], generated => ([], generated)
  | tree :: rest, generated =>
    let first := tree.number generated
    let others := numberForest rest first.2
    (first.1 :: others.1, others.2)

theorem numberAll_append (front back : Branches BlockSource) (generated : Nat) :
    numberAll (front ++ back) generated =
      ((numberAll front generated).1 ++ (numberAll back (numberAll front generated).2).1,
        (numberAll back (numberAll front generated).2).2) := by
  induction front generalizing generated with
  | nil => rfl
  | cons branch rest ih =>
    obtain ⟨position, tree⟩ := branch
    simp only [cons_append, numberAll, ih]

theorem length_labels_numberAll {branches : Branches BlockSource}
    (h : ∀ branch ∈ branches, ∀ generated,
      (branch.2.number generated).1.labels.length = branch.2.labels.length) (generated : Nat) :
    ((numberAll branches generated).1.flatMap (fun branch => branch.2.labels)).length =
      (branches.flatMap (fun branch => branch.2.labels)).length := by
  induction branches generalizing generated with
  | nil => rfl
  | cons branch rest ih =>
    obtain ⟨position, tree⟩ := branch
    rw [numberAll, flatMap_cons, flatMap_cons, length_append, length_append,
      h (position, tree) mem_cons_self,
      ih (forall_mem_cons.1 h).2]

theorem length_labels_number (tree : BlockTree BlockSource) (generated : Nat) :
    (tree.number generated).1.labels.length = tree.labels.length := by
  induction tree using ind generalizing generated with
  | node source branches ih =>
    rw [number, labels_node, labels_node, length_cons, length_cons, length_labels_numberAll ih]

theorem length_labels_numberForest (trees : List (BlockTree BlockSource)) (generated : Nat) :
    ((numberForest trees generated).1.flatMap labels).length = (trees.flatMap labels).length := by
  induction trees generalizing generated with
  | nil => rfl
  | cons tree rest ih =>
    rw [numberForest, flatMap_cons, flatMap_cons, length_append, length_append,
      length_labels_number, ih]

end BlockTree

namespace Xml.Element

/-- The trees of labels that a document describes. -/
def forest (root : Element) : List (BlockTree Label) := (BlockTree.numberForest root.outlines 0).1

/-- The names that an element of the workspace mentions or declares. -/
def variablesIn (element : Element) : List String :=
  if element.isBlock then element.outline.labels.filterMap BlockSource.variableName?
  else if element.name = "variables" then element.children.filterMap Loader.declaredName?
  else []

/-- The names of variables in a document, in the order in which a walk meets them. -/
def variableNames (root : Element) : List String := root.children.flatMap variablesIn

end Xml.Element

/-! ## Sketches -/

namespace Sketch

/-- What the document says about the block of a sketch. -/
def source : Sketch → BlockSource
  | .mk source _ _ _ => source

/-- The sketches directly below a sketch. -/
def branches : Sketch → List (Position × Sketch)
  | .mk _ values statements next =>
    values.map (fun entry => (.value entry.1, entry.2)) ++
      statements.map (fun entry => (.statement entry.1, entry.2)) ++
      next.toList.map (fun sketch => (.next, sketch))

theorem sizeOf_lt_of_mem_branches {sketch : Sketch} {branch : Position × Sketch}
    (h : branch ∈ sketch.branches) : sizeOf branch.2 < sizeOf sketch := by
  obtain ⟨source, values, statements, next⟩ := sketch
  simp only [branches, mem_append, mem_map, Option.mem_toList] at h
  rw [mk.sizeOf_spec]
  have hlist : ∀ {entry : String × Sketch} {entries : List (String × Sketch)}, entry ∈ entries →
      sizeOf entry.2 < sizeOf entries := by
    intro entry entries hentry
    have hlt := sizeOf_lt_of_mem hentry
    obtain ⟨name, sketch⟩ := entry
    simp only [Prod.mk.sizeOf_spec] at hlt ⊢
    omega
  rcases h with (⟨entry, hentry, rfl⟩ | ⟨entry, hentry, rfl⟩) | ⟨inner, rfl, rfl⟩
  · have hlt := hlist hentry
    dsimp only
    omega
  · have hlt := hlist hentry
    dsimp only
    omega
  · simp only [Option.some.sizeOf_spec]
    omega

/-- What holds of a sketch if it holds of those directly below it holds of every sketch. -/
theorem ind {motive : Sketch → Prop}
    (mk : ∀ sketch, (∀ branch ∈ sketch.branches, motive branch.2) → motive sketch)
    (sketch : Sketch) : motive sketch :=
  mk sketch fun branch _ => ind mk branch.2
termination_by sizeOf sketch
decreasing_by exact sizeOf_lt_of_mem_branches ‹_›

mutual

/-- The tree of what a sketch says. -/
def tree : Sketch → BlockTree BlockSource
  | .mk source values statements next =>
    .node source (treesAt .value values ++ treesAt .statement statements ++ treeNext next)

def treesAt (position : String → Position) :
    List (String × Sketch) → Branches BlockSource
  | [] => []
  | (name, sketch) :: rest => (position name, sketch.tree) :: treesAt position rest

def treeNext : Option Sketch → Branches BlockSource
  | none => []
  | some sketch => [(.next, sketch.tree)]

end

theorem tree_eq (sketch : Sketch) :
    sketch.tree =
      .node sketch.source (sketch.branches.map (fun branch => (branch.1, branch.2.tree))) := by
  have htrees : ∀ (position : String → Position) (sketches : List (String × Sketch)),
      treesAt position sketches = sketches.map (fun entry => (position entry.1, entry.2.tree)) := by
    intro position sketches
    induction sketches with
    | nil => rfl
    | cons entry rest ih => rw [treesAt, ih, map_cons]
  obtain ⟨source, values, statements, next⟩ := sketch
  cases next <;> simp [tree, treeNext, htrees, Sketch.source, branches, Function.comp_def]

theorem first_eq (tag : String) (elements : List Element) :
    first tag elements = (elements.find? (fun element => element.name = tag)).map ofElement := by
  induction elements with
  | nil => rfl
  | cons element rest ih =>
    rw [first, find?_cons]
    by_cases h : element.name = tag
    · simp [h]
    · simp [h, ih]

theorem first_or_first (holder : Element) :
    (first "block" holder.children).or (first "shadow" holder.children) =
      holder.connected?.map ofElement := by
  rw [first_eq, first_eq, Xml.Element.connected?, Option.map_or]

theorem holders_eq (tag : String) (elements : List Element) :
    holders tag elements = (elements.filter (fun element => element.name = tag)).filterMap
      (fun holder => holder.connected?.map
        (fun child => (BlockSource.nameOf holder, ofElement child))) := by
  induction elements with
  | nil => rfl
  | cons element rest ih =>
    obtain ⟨name, attributes, text, children⟩ := element
    rw [holders, first_or_first ⟨name, attributes, text, children⟩, ih]
    by_cases h : name = tag
    · rw [if_pos h, filter_cons_of_pos (by simpa using h), filterMap_cons]
      cases hchild : Xml.Element.connected? ⟨name, attributes, text, children⟩ <;> simp
    · rw [if_neg h, filter_cons_of_neg (by simpa using h)]

theorem nextOf_eq (found : Option Sketch) (elements : List Element) :
    nextOf found elements =
      match (elements.filter (fun element => element.name = "next")).getLast? with
      | some holder => holder.connected?.map ofElement
      | none => found := by
  induction elements generalizing found with
  | nil => rfl
  | cons element rest ih =>
    obtain ⟨name, attributes, text, children⟩ := element
    rw [nextOf, first_or_first ⟨name, attributes, text, children⟩, ih]
    by_cases h : name = "next"
    · rw [if_pos h, filter_cons_of_pos (by simpa using h)]
      cases hlast : (rest.filter (fun element => element.name = "next")).getLast? with
      | none =>
        rw [getLast?_eq_none_iff] at hlast
        rw [hlast]
        rfl
      | some holder => simp [getLast?_cons, hlast]
    · rw [if_neg h, filter_cons_of_neg (by simpa using h)]

/-- A sketch has what counts in its element. -/
theorem ofElement_eq (element : Element) :
    ofElement element = .mk (BlockSource.ofElement element) (holders "value" element.children)
      (holders "statement" element.children) (nextOf none element.children) := by
  obtain ⟨name, attributes, text, children⟩ := element
  rw [ofElement]

theorem branches_ofElement (element : Element) :
    (ofElement element).branches =
      element.branches.map (fun branch => (branch.1, ofElement branch.2)) := by
  rw [ofElement_eq, branches, holders_eq, holders_eq, nextOf_eq]
  simp only [Xml.Element.branches, Xml.Element.branchesAt, Xml.Element.withTag, map_append,
    map_filterMap, Option.map_map, map_map]
  refine congrArg _ ?_
  cases (element.children.filter (fun child => child.name = "next")).getLast? with
  | none => rfl
  | some holder => cases hchild : holder.connected? <;> simp [hchild]

theorem tree_ofElement (element : Element) : (ofElement element).tree = element.outline := by
  induction element using Xml.Element.outline.induct with
  | case1 element ih =>
    have hsource : (ofElement element).source = BlockSource.ofElement element := by
      rw [ofElement_eq, source]
    rw [tree_eq, Xml.Element.outline_eq, hsource, branches_ofElement, map_map]
    refine congrArg _ (map_congr_left fun branch hbranch => ?_)
    rw [Function.comp_apply, ih ⟨branch, hbranch⟩]

end Sketch

end RobotBlocks
