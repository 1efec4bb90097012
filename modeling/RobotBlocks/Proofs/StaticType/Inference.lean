import RobotBlocks.Proofs.Program.Refinement
import RobotBlocks.Proofs.StaticType.Merge

/-!
# What inference finds

Inference goes through the blocks once. First every value that a block gives to a variable is looked at
in its turn (`givings`), with the table of what is known by then, and its type is merged into that of
the variable (`take`). After that the results of the procedures are looked at in their turn, each
with the table of what is known by then (`learnResult`).

The types that a variable got, each as it was known in its turn, are listed by `typesGiven`; the type of
the variable at the end is their join. A value whose type was not known in its turn, or was known as a
narrower one than at the end, is not part of that join. So whether the variable takes the value as it
is depends on the other values that it got, and whether a procedure has the type of its result
depends on when that became known.
-/

set_option autoImplicit false

namespace RobotBlocks

open List

namespace Inference

open StaticType (merge object Takes IsJoin)

/-- A value that a block gives to a variable, from one of its sockets. -/
structure Giving where
  giver : Block
  socket : String
  name : String

/-- The type of the value in a socket, as far as a table tells. -/
def knownType (w : Workspace) (table : TypeTable) (block : Block) (socket : String) :
    Option String :=
  (StaticType.ofChild w table block socket).toOption.join

/-- The values that a call gives to parameters, from a position on. -/
def argumentsFrom (call : Block) : (index : Nat) → List String → List Giving
  | _, [] => []
  | index, parameter :: rest =>
    ⟨call, "ARG" ++ toString index, parameter⟩ :: argumentsFrom call (index + 1) rest

/-- The values that a block gives to variables. -/
def givingsOf (w : Workspace) (block : Block) : List Giving :=
  match block.kind with
  | .variablesSet =>
    (block.requiredField "VAR").toOption.toList.map (fun name => ⟨block, "VALUE", name⟩)
  | .procedureCall _ =>
    block.procedureName.toOption.toList.flatMap
      (fun name => argumentsFrom block 0 ((w.parameters? name).getD []))
  | _ => []

/-- The enabled blocks in the order of their identities. -/
def enabledBlocks (w : Workspace) : List Block := w.byId.filter (fun block => !block.disabled)

/-- The values that enabled blocks give to variables, in the order in which inference meets them. -/
def givings (w : Workspace) : List Giving := (enabledBlocks w).flatMap (givingsOf w)

/-- The table after a value was given. -/
def take (w : Workspace) (table : TypeTable) (giving : Giving) : TypeTable :=
  table.assign giving.name (knownType w table giving.giver giving.socket)

/-- The types of the values given to a variable, each by the table at its turn. -/
def typesGiven (w : Workspace) (name : String) : TypeTable → List Giving → List String
  | _, [] => []
  | table, giving :: rest =>
    (if giving.name = name then (knownType w table giving.giver giving.socket).toList else []) ++
      typesGiven w name (take w table giving) rest

/-- The table after a block, if it defines a procedure with a result, was looked at. -/
def learnResult (w : Workspace) (table : TypeTable) (block : Block) : TypeTable :=
  match block.kind, block.procedureName with
  | .procedureDef true, .ok name =>
    table.giveResult name ((knownType w table block "RETURN").getD object)
  | _, _ => table

/-- The table that inference has found when it comes to the results. -/
def tableOfVariables (w : Workspace) (table : TypeTable) : TypeTable :=
  w.variableNames.foldl TypeTable.declare ((givings w).foldl (take w) table)

/-- The table by which the result of a procedure is judged: that of the definitions before it. -/
def tableAtTurn (w : Workspace) (table : TypeTable) (definition : Block) : TypeTable :=
  ((enabledBlocks w).takeWhile (fun block => block.id ≠ definition.id)).foldl (learnResult w)
    (tableOfVariables w table)

section

variable {w : Workspace} {s t : TypeTable} {u : Unit}
variable {block : Block} {name : String} {blocks : List Block}

/-! ## Steps -/

variable {type : Option String}

theorem yields_childType {socket : String} :
    Yields (childType w block socket) s type t ↔
      StaticType.ofChild w s block socket = .ok type ∧ s = t := by
  unfold childType
  simp only [yields_bind, yields_get, yields_liftM]
  constructor
  · rintro ⟨table, m, ⟨rfl, rfl⟩, h⟩
    exact h
  · intro h
    exact ⟨s, s, ⟨rfl, rfl⟩, h⟩

theorem knownType_eq {socket : String} (h : StaticType.ofChild w s block socket = .ok type) :
    knownType w s block socket = type := by
  simp [knownType, h, Except.toOption]

theorem eq_of_yields_addArguments {call : Block} {index : Nat} {parameters : List String}
    (h : Yields (addArguments w call index parameters) s u t) :
    t = (argumentsFrom call index parameters).foldl (take w) s := by
  induction parameters generalizing index s with
  | nil =>
    unfold addArguments at h
    simpa [argumentsFrom, eq_comm] using h
  | cons parameter rest ih =>
    unfold addArguments at h
    simp only [yields_bind, yields_modify, yields_childType] at h
    obtain ⟨type, m, ⟨htype, rfl⟩, -, m', rfl, hrest⟩ := h
    rw [ih hrest, argumentsFrom, foldl_cons, take, knownType_eq htype]

theorem eq_of_yields_addValues (h : Yields (addValues w block) s u t) :
    t = (givingsOf w block).foldl (take w) s := by
  unfold addValues at h
  split at h
  · rename_i hkind
    simp only [yields_bind, yields_liftM, yields_modify, yields_childType] at h
    obtain ⟨name, m, ⟨hname, rfl⟩, type, m', ⟨htype, rfl⟩, rfl⟩ := h
    simp [givingsOf, hkind, hname, Except.toOption, take, knownType_eq htype]
  · rename_i hkind
    simp only [yields_bind, yields_liftM] at h
    obtain ⟨name, m, ⟨hname, rfl⟩, harguments⟩ := h
    rw [eq_of_yields_addArguments harguments]
    simp [givingsOf, hkind, hname, Except.toOption]
  · rename_i hset hcall
    have hst : s = t := by simpa using h
    unfold givingsOf
    split
    · rename_i hkind
      exact absurd hkind hset
    · rename_i returns hkind
      exact absurd hkind (hcall returns)
    · exact hst.symm

theorem eq_of_yields_addResult (h : Yields (addResult w block) s u t) :
    t = learnResult w s block := by
  unfold addResult at h
  split at h
  · rename_i hkind
    simp only [yields_bind, yields_liftM, yields_modify, yields_childType] at h
    obtain ⟨name, m, ⟨hname, rfl⟩, type, m', ⟨htype, rfl⟩, rfl⟩ := h
    simp [learnResult, hkind, hname, knownType_eq htype]
  · rename_i hkind
    unfold learnResult
    split
    · rename_i hkind' _
      exact absurd hkind' hkind
    · simpa [eq_comm] using h

/-! ## Runs -/

theorem eq_of_yields_forM_addValues (h : Yields (forM blocks (addValues w)) s u t) :
    t = (blocks.flatMap (givingsOf w)).foldl (take w) s := by
  induction blocks generalizing s with
  | nil => simpa [eq_comm] using h
  | cons block rest ih =>
    obtain ⟨m, hblock, hrest⟩ := yields_forM_cons.1 h
    rw [flatMap_cons, foldl_append, ← eq_of_yields_addValues hblock]
    exact ih hrest

theorem eq_of_yields_forM_addResult (h : Yields (forM blocks (addResult w)) s u t) :
    t = blocks.foldl (learnResult w) s := by
  induction blocks generalizing s with
  | nil => simpa [eq_comm] using h
  | cons block rest ih =>
    obtain ⟨m, hblock, hrest⟩ := yields_forM_cons.1 h
    rw [foldl_cons, ← eq_of_yields_addResult hblock]
    exact ih hrest

/-- Inference that ends well has looked at all givings and then at all results. -/
theorem eq_of_yields_inferAll (h : Yields (inferAll w) s u t) :
    t = (enabledBlocks w).foldl (learnResult w) (tableOfVariables w s) := by
  unfold inferAll at h
  simp only [forM_eq_forM, yields_bind, yields_modify] at h
  obtain ⟨_, m, hvalues, _, m', rfl, hresults⟩ := h
  rw [eq_of_yields_forM_addResult hresults, eq_of_yields_forM_addValues hvalues]
  rfl

/-! ## Variables -/

@[simp] theorem variableTypes_learnResult (table : TypeTable) (block : Block) :
    (learnResult w table block).variableTypes = table.variableTypes := by
  unfold learnResult
  split <;> rfl

@[simp] theorem variableTypes_foldl_learnResult (table : TypeTable) (blocks : List Block) :
    (blocks.foldl (learnResult w) table).variableTypes = table.variableTypes := by
  induction blocks generalizing table with
  | nil => rfl
  | cons block rest ih => rw [foldl_cons, ih, variableTypes_learnResult]

theorem variableType_declare (table : TypeTable) (name declared : String) :
    (table.declare declared).variableType name = table.variableType name := by
  unfold TypeTable.variableType TypeTable.declare Dict.insertIfNew
  split
  · rfl
  · rename_i hnew
    rw [Dict.get?_insert]
    split
    · rename_i heq
      subst heq
      have hnone : table.variableTypes.get? name = none := by
        simpa [Dict.contains] using hnew
      simp [hnone]
    · rfl

theorem variableType_foldl_declare (table : TypeTable) (name : String) (names : List String) :
    (names.foldl TypeTable.declare table).variableType name = table.variableType name := by
  induction names generalizing table with
  | nil => rfl
  | cons declared rest ih => rw [foldl_cons, ih, variableType_declare]

theorem get?_assign_some (table : TypeTable) (name key type : String) :
    (table.assign name (some type)).variableTypes.get? key =
      if key = name then some (StaticType.widen (table.variableTypes.get? name) type)
      else table.variableTypes.get? key :=
  Dict.get?_insert table.variableTypes name key _

variable {types : List String}

/-- A value changes the type of the variable that it is given to. -/
theorem IsJoin.take (h : IsJoin (s.variableTypes.get? name) types) (giving : Giving) :
    IsJoin ((Inference.take w s giving).variableTypes.get? name)
      (types ++ (if giving.name = name then
        (knownType w s giving.giver giving.socket).toList else [])) := by
  unfold Inference.take
  cases knownType w s giving.giver giving.socket with
  | none => simpa [TypeTable.assign] using h
  | some type =>
    rw [get?_assign_some]
    by_cases heq : giving.name = name
    · subst heq
      simpa using h.snoc type
    · simpa [heq, Ne.symm heq] using h

/-- The type of a variable is the join of the types that it got. -/
theorem isJoin_foldl_take (givings : List Giving) (h : IsJoin (s.variableTypes.get? name) types) :
    IsJoin ((givings.foldl (Inference.take w) s).variableTypes.get? name)
      (types ++ typesGiven w name s givings) := by
  induction givings generalizing s types with
  | nil => simpa [typesGiven] using h
  | cons giving rest ih =>
    have hrest := ih (IsJoin.take (w := w) h giving)
    rwa [append_assoc] at hrest

theorem takes_variableType_iff (h : Yields (inferAll w) s u t) (name type : String) :
    Takes (t.variableType name) type ↔
      t.variableType name = object ∨
        ∃ given ∈ (s.variableTypes.get? name).toList ++ typesGiven w name s (givings w),
          Takes given type := by
  have hvariable : t.variableType name =
      (((givings w).foldl (Inference.take w) s).variableTypes.get? name).getD object := by
    rw [eq_of_yields_inferAll h]
    have hresults : ∀ table : TypeTable,
        ((enabledBlocks w).foldl (learnResult w) table).variableType name =
          table.variableType name := by
      intro table
      simp [TypeTable.variableType]
    rw [hresults, tableOfVariables, variableType_foldl_declare]
    rfl
  rw [hvariable]
  exact (isJoin_foldl_take (givings w) (IsJoin.ofKnown _)).takes_iff type

theorem typesGiven_append (name : String) (table : TypeTable) (earlier later : List Giving) :
    typesGiven w name table (earlier ++ later) =
      typesGiven w name table earlier ++
        typesGiven w name (earlier.foldl (Inference.take w) table) later := by
  induction earlier generalizing table with
  | nil => rfl
  | cons giving rest ih =>
    rw [cons_append, typesGiven, typesGiven, ih, append_assoc, foldl_cons]

/-- A variable takes a value whose type was known in its turn. -/
theorem takes_of_known (h : Yields (inferAll w) s u t) {giving : Giving} {type : String}
    {earlier later : List Giving} (hsplit : givings w = earlier ++ giving :: later)
    (hknown : knownType w (earlier.foldl (Inference.take w) s) giving.giver giving.socket =
      some type) : Takes (t.variableType giving.name) type := by
  rw [takes_variableType_iff h]
  refine .inr ⟨type, mem_append_right _ ?_, StaticType.takes_refl type⟩
  rw [hsplit, typesGiven_append, typesGiven]
  simp [hknown]

/-! ## Results -/

theorem get?_resultTypes_learnResult_of_ne {table : TypeTable}
    (h : block.kind = .procedureDef true → block.procedureName ≠ .ok name) :
    (learnResult w table block).resultTypes.get? name = table.resultTypes.get? name := by
  unfold learnResult
  split
  · rename_i other hkind hother
    have hne : name ≠ other := by
      rintro rfl
      exact h hkind hother
    simp [TypeTable.giveResult, hne]
  · rfl

theorem get?_resultTypes_foldl_of_ne {table : TypeTable}
    (h : ∀ block ∈ blocks, block.kind = .procedureDef true → block.procedureName ≠ .ok name) :
    (blocks.foldl (learnResult w) table).resultTypes.get? name = table.resultTypes.get? name := by
  induction blocks generalizing table with
  | nil => rfl
  | cons block rest ih =>
    rw [foldl_cons, ih (forall_mem_cons.1 h).2,
      get?_resultTypes_learnResult_of_ne (h block mem_cons_self)]

theorem nodup_enabledBlocks (w : Workspace) : ((enabledBlocks w).map Block.id).Nodup := by
  have hsorted : (w.byId.map Block.id).Nodup :=
    ((mergeSort_perm w.blocks _).map Block.id).nodup_iff.2 w.distinct
  exact (filter_sublist.map Block.id).nodup hsorted

theorem mem_enabledBlocks :
    block ∈ enabledBlocks w ↔ block ∈ w.blocks ∧ block.disabled = false := by
  simp [enabledBlocks, Workspace.byId]

/-- The blocks before a block, the block, and those after it, which have other identities. -/
theorem enabledBlocks_eq_append (h : block ∈ enabledBlocks w) :
    ∃ later, enabledBlocks w =
        (enabledBlocks w).takeWhile (fun other => other.id ≠ block.id) ++ block :: later ∧
      ∀ other ∈ later, other.id ≠ block.id := by
  obtain ⟨earlier, later, heq⟩ := append_of_mem h
  have hnodup := nodup_enabledBlocks w
  rw [heq, map_append, map_cons, nodup_append, nodup_cons] at hnodup
  obtain ⟨-, ⟨hlater, -⟩, hearlier⟩ := hnodup
  have htake : (enabledBlocks w).takeWhile (fun other => other.id ≠ block.id) = earlier := by
    rw [heq, takeWhile_append_of_pos, takeWhile_cons_of_neg]
    · simp
    · simp
    · intro other hother
      have hne := hearlier other.id (mem_map_of_mem hother) block.id mem_cons_self
      simpa using hne
  refine ⟨later, ?_, ?_⟩
  · rw [htake]
    exact heq
  · intro other hother hid
    exact hlater (hid ▸ mem_map_of_mem hother)

/-- The result of a procedure with one definition has the type that was known at its turn. -/
theorem resultType_eq (h : Yields (inferAll w) s u t) (hmem : block ∈ w.blocks)
    (henabled : block.disabled = false) (hkind : block.kind = .procedureDef true)
    (hname : block.procedureName = .ok name)
    (honly : ∀ other ∈ w.blocks, other.disabled = false → other.kind = .procedureDef true →
      other.procedureName = .ok name → other.id = block.id) :
    t.resultType name = (knownType w (tableAtTurn w s block) block "RETURN").getD object := by
  obtain ⟨later, heq, hlater⟩ := enabledBlocks_eq_append (mem_enabledBlocks.2 ⟨hmem, henabled⟩)
  have hothers : ∀ other ∈ later, other.kind = .procedureDef true →
      other.procedureName ≠ .ok name := by
    intro other hother hotherKind hotherName
    have hotherMem : other ∈ enabledBlocks w := by
      rw [heq]
      simp [hother]
    obtain ⟨hin, hon⟩ := mem_enabledBlocks.1 hotherMem
    exact hlater other hother (honly other hin hon hotherKind hotherName)
  rw [eq_of_yields_inferAll h, heq, foldl_append, foldl_cons]
  unfold TypeTable.resultType
  rw [get?_resultTypes_foldl_of_ne hothers]
  simp [learnResult, hkind, hname, TypeTable.giveResult, tableAtTurn]

theorem assignment_mem_givings (hmem : block ∈ w.blocks) (henabled : block.disabled = false)
    (hkind : block.kind = .variablesSet) (hname : block.requiredField "VAR" = .ok name) :
    ⟨block, "VALUE", name⟩ ∈ givings w := by
  refine mem_flatMap.2 ⟨block, mem_enabledBlocks.2 ⟨hmem, henabled⟩, ?_⟩
  simp [givingsOf, hkind, hname, Except.toOption]

end

/-- When the types that inference finds fit the values. A variable takes a value of a type as it is
exactly if the variable is of type `Object` or one of the values that it got had, in its turn, a type
that takes it; so it does if the type was known at the turn of the assignment. A procedure with
one definition has the type of its result exactly if that was known at the turn of the definition. -/
theorem inferred_types_fit_iff {w : Workspace} {before after : TypeTable}
    (h : Yields (inferAll w) before () after) :
    (∀ block ∈ w.blocks, ∀ name type : String, block.disabled = false →
      block.kind = .variablesSet → block.requiredField "VAR" = .ok name →
      StaticType.ofChild w after block "VALUE" = .ok (some type) →
      (merge (after.variableType name) type = after.variableType name ↔
        after.variableType name = object ∨
          ∃ given ∈ (before.variableTypes.get? name).toList ++
              typesGiven w name before (givings w),
            merge given type = given) ∧
      ∃ earlier later, givings w = earlier ++ ⟨block, "VALUE", name⟩ :: later ∧
        (knownType w (earlier.foldl (take w) before) block "VALUE" = some type →
          merge (after.variableType name) type = after.variableType name)) ∧
    (∀ block ∈ w.blocks, ∀ name type : String, block.disabled = false →
      block.kind = .procedureDef true → block.procedureName = .ok name →
      (∀ other ∈ w.blocks, other.disabled = false → other.kind = .procedureDef true →
        other.procedureName = .ok name → other.id = block.id) →
      StaticType.ofChild w after block "RETURN" = .ok (some type) →
      (after.resultType name = type ↔
        (knownType w (tableAtTurn w before block) block "RETURN").getD object = type)) := by
  refine ⟨?_, ?_⟩
  · intro block hmem name type henabled hkind hname _
    refine ⟨takes_variableType_iff h name type, ?_⟩
    obtain ⟨earlier, later, hsplit⟩ :=
      append_of_mem (assignment_mem_givings hmem henabled hkind hname)
    exact ⟨earlier, later, hsplit, takes_of_known h hsplit⟩
  · intro block hmem name type henabled hkind hname honly _
    rw [resultType_eq h hmem henabled hkind hname honly]

/-! ## A document with late types -/

open Xml.Element in
/-- The document `x := y; x := 1; y := 2.5` in three stacks, with a procedure `f` that gives the result
of `g`, and a procedure `g` that gives a number. -/
def lateDocument : Xml.Element :=
  withAttributes "xml" []
    [blockOf "variables_set" "a"
      [fieldOf "VAR" "x", valueOf "VALUE" (blockOf "variables_get" "a1" [fieldOf "VAR" "y"])],
    blockOf "variables_set" "b"
      [fieldOf "VAR" "x", valueOf "VALUE" (blockOf "math_number" "b1" [fieldOf "NUM" "1"])],
    blockOf "variables_set" "c"
      [fieldOf "VAR" "y", valueOf "VALUE" (blockOf "math_number" "c1" [fieldOf "NUM" "2.5"])],
    blockOf "procedures_defreturn" "d"
      [fieldOf "NAME" "f",
        valueOf "RETURN"
          (blockOf "procedures_callreturn" "d1" [withAttributes "mutation" [("name", "g")] []])],
    blockOf "procedures_defreturn" "e"
      [fieldOf "NAME" "g", valueOf "RETURN" (blockOf "math_number" "e1" [fieldOf "NUM" "1"])]]

/-- What loading the elements of the document leaves. -/
@[irreducible] def lateLoading : Loading :=
  ((forM lateDocument.children Loader.loadElement).run.run {}).2

def lateTable : TypeTable :=
  { variableTypes := Dict.ofList [("x", "int"), ("y", "double")]
    resultTypes := Dict.ofList [("f", "Object"), ("g", "int")] }

theorem lateLoading_spec :
    (∃ loading,
      Yields (Program.ofRoot lateDocument none) {} { workspace := lateLoading.workspace } loading) ∧
      Yields (inferAll lateLoading.workspace) {} () lateTable ∧
      ∃ block ∈ lateLoading.workspace.blocks, block.disabled = false ∧
        block.kind = .variablesSet ∧ block.requiredField "VAR" = .ok "x" ∧
        StaticType.ofChild lateLoading.workspace lateTable block "VALUE" = .ok (some "double") := by
  have helements : Yields (forM lateDocument.children Loader.loadElement) {} () lateLoading := by
    unfold lateLoading
    exact yields_of_fst_run_eq (by decide +kernel)
  have hsorted : lateLoading.workspace.blocks.Pairwise (fun a b => a.id ≤ b.id) := by decide +kernel
  have hvalid : lateLoading.workspace.validate = .ok () := by
    rw [Workspace.validate_of_sorted hsorted (by decide +kernel)]
    decide +kernel
  refine ⟨exists_yields_ofRoot rfl helements hvalid, ?_, by decide +kernel⟩
  unfold Yields
  delta inferAll addValues Workspace.parameters?
  simp only [Workspace.byId_eq_blocks hsorted]
  decide +kernel

/-- None of the values that `x` gets in the document had a type that takes `double` in its turn. -/
theorem late_types_fit_iff :
    Yields (inferAll lateLoading.workspace) {} () lateTable ∧
      ¬ ∃ given ∈ typesGiven lateLoading.workspace "x" {} (givings lateLoading.workspace),
        merge given "double" = given := by
  obtain ⟨-, htable, block, hmem, henabled, hkind, hname, htype⟩ := lateLoading_spec
  refine ⟨htable, ?_⟩
  rintro ⟨given, hgiven, htakes⟩
  have hfits := (inferred_types_fit_iff htable).1 block hmem "x" "double" henabled hkind
    hname htype
  have hnarrow : merge (lateTable.variableType "x") "double" ≠ lateTable.variableType "x" := by
    decide
  exact hnarrow (hfits.1.2 (.inr ⟨given, mem_append_right _ hgiven, htakes⟩))

/-- In the document with late types the first assignment to `x` gives it a value of a type that its own
type does not take, and the type of `f` is not that of its result. -/
theorem late_types_do_not_fit :
    ∃ program loading after, Yields (Program.ofRoot lateDocument none) {} program loading ∧
      Yields (inferAll program.workspace) {} () after ∧
      (∃ block ∈ program.workspace.blocks, block.disabled = false ∧ block.kind = .variablesSet ∧
        block.requiredField "VAR" = .ok "x" ∧
        StaticType.ofChild program.workspace after block "VALUE" = .ok (some "double") ∧
        merge (after.variableType "x") "double" ≠ after.variableType "x") ∧
      (∃ block ∈ program.workspace.blocks, block.disabled = false ∧
        block.kind = .procedureDef true ∧ block.procedureName = .ok "f" ∧
        (∀ other ∈ program.workspace.blocks, other.kind.isDefinition = true →
          other.procedureName = .ok "f" → other.id = block.id) ∧
        StaticType.ofChild program.workspace after block "RETURN" = .ok (some "int") ∧
        after.resultType "f" ≠ "int") := by
  obtain ⟨⟨loading, hloads⟩, htable, block, hmem, henabled, hkind, hname, htype⟩ := lateLoading_spec
  refine ⟨_, loading, lateTable, hloads, htable,
    ⟨block, hmem, henabled, hkind, hname, htype, by decide⟩, ?_⟩
  decide +kernel

end Inference

end RobotBlocks
