import Mathlib.Data.List.Perm.Basic
import RobotBlocks.Proofs.StaticType.Inference
import RobotBlocks.Proofs.StaticType.Success

/-!
# Inference in any order

Inference goes through the blocks in the order of their identities. `inferIn` goes through them in any
order. Whether it ends well is the same for all orders, because the types that are asked for can be
found with any table or with none (`exists_yields_inferIn_iff`).

Which types are found does depend on the order, unless no value that is given to a variable consults
the table: `Consults` says that the search for the type of a block comes to a variable or to the result
of a procedure. If no value does (`IsClosed`), each of them has one type whatever is known by then, and
the type of a variable is the merge of the types it is given (`mergeAll?`), in whatever order they come.
-/

set_option autoImplicit false

namespace RobotBlocks

open List

variable {block : Block}

namespace StaticType

/-! ## Merging many types -/

/-- The merge of all types of a list, if there are any. -/
def mergeAll? : List String → Option String
  | [] => none
  | type :: rest => some (rest.foldl merge type)

theorem foldl_widen_some (types : List String) (known : String) :
    types.foldl (fun known type => some (widen known type)) (some known) =
      some (types.foldl merge known) := by
  induction types generalizing known with
  | nil => rfl
  | cons type rest ih =>
    rw [foldl_cons, foldl_cons]
    exact ih (merge known type)

theorem mergeAll?_eq_foldl_widen (types : List String) :
    mergeAll? types = types.foldl (fun known type => some (widen known type)) none := by
  cases types with
  | nil => rfl
  | cons type rest => exact (foldl_widen_some rest type).symm

theorem widen_right_comm (known : Option String) (a b : String) :
    widen (some (widen known a)) b = widen (some (widen known b)) a := by
  cases known with
  | none => exact merge_comm a b
  | some joined =>
    calc merge (merge joined a) b
        = merge joined (merge a b) := merge_assoc joined a b
      _ = merge joined (merge b a) := by rw [merge_comm a b]
      _ = merge (merge joined b) a := (merge_assoc joined b a).symm

theorem mergeAll?_perm {types types' : List String} (h : types.Perm types') :
    mergeAll? types = mergeAll? types' := by
  rw [mergeAll?_eq_foldl_widen, mergeAll?_eq_foldl_widen]
  refine h.foldl_eq' (fun a _ b _ known => ?_) none
  rw [widen_right_comm]

/-! ## Types that do not consult the table -/

/-- The sockets of a block whose types decide about the type of the block. -/
def typedSockets (block : Block) : List String :=
  match block.kind with
  | .mathArithmetic =>
    if block.field? "OP" = some "POWER" || block.field? "OP" = some "DIVIDE" then [] else ["A", "B"]
  | .mathSingle =>
    if block.field? "OP" = some "NEG" || block.field? "OP" = some "ABS" then ["NUM"] else []
  | .logicTernary => ["THEN", "ELSE"]
  | _ => []

/-- The type of a block is that of a variable or of the result of a procedure. -/
def LooksUp (block : Block) : Prop :=
  block.kind = .variablesGet ∨ block.kind = .procedureCall true

/-- The search for the type of a block comes to a variable or to the result of a procedure. -/
inductive Consults (w : Workspace) : Block → Prop where
  | here {block : Block} (h : LooksUp block) : Consults w block
  | inSocket {block child : Block} {socket id : String} (hsocket : socket ∈ typedSockets block)
      (hvalue : block.values.get? socket = some id) (hchild : w.get? id = some child)
      (henabled : child.disabled = false) (h : Consults w child) : Consults w block

/-- No enabled block in a socket consults the table. -/
def ClosedAt (w : Workspace) (block : Block) (socket : String) : Prop :=
  ∀ id child, block.values.get? socket = some id → w.get? id = some child →
    child.disabled = false → ¬ Consults w child

variable {socket : String}

theorem closedAt_of_not_consults {w : Workspace} (h : ¬ Consults w block)
    (hsocket : socket ∈ typedSockets block) : ClosedAt w block socket :=
  fun _ _ hvalue hchild henabled hconsults =>
    h (.inSocket hsocket hvalue hchild henabled hconsults)

section

variable {w : Workspace} {block : Block} {table table' : TypeTable} {typeOf typeOf' : Block → Answer}

theorem inSocket_eq_of_closedAt (h : ClosedAt w block socket)
    (htype : ∀ child, ¬ Consults w child → typeOf child = typeOf' child) :
    inSocket w typeOf block socket = inSocket w typeOf' block socket := by
  cases hvalue : block.values.get? socket with
  | none => rw [inSocket_of_get?_eq_none hvalue, inSocket_of_get?_eq_none hvalue]
  | some id =>
    cases hchild : w.get? id with
    | none => rw [inSocket_of_dangling hvalue hchild, inSocket_of_dangling hvalue hchild]
    | some child =>
      rw [inSocket_of_get?_eq_some hvalue hchild, inSocket_of_get?_eq_some hvalue hchild]
      split
      · rfl
      · next henabled => exact htype child (h id child hvalue hchild (by simpa using henabled))

/-- A block that looks nothing up has the type that follows from those in its sockets. -/
theorem step_eq_of_typedSockets (hlook : ¬ LooksUp block) (h : ∀ socket ∈ typedSockets block,
      inSocket w typeOf block socket = inSocket w typeOf' block socket) :
    step w table typeOf block = step w table' typeOf' block := by
  unfold LooksUp at hlook
  unfold typedSockets at h
  unfold step numericInSocket
  cases hkind : block.kind with
  | mathArithmetic =>
    rw [hkind] at h
    dsimp only at h ⊢
    split
    · rfl
    · next hop =>
      rw [if_neg hop] at h
      rw [h "A" (by simp), h "B" (by simp)]
  | mathSingle =>
    rw [hkind] at h
    dsimp only at h ⊢
    split
    · next hop =>
      rw [if_pos hop] at h
      rw [h "NUM" (by simp)]
    · rfl
  | logicTernary =>
    rw [hkind] at h
    dsimp only at h ⊢
    rw [h "THEN" (by simp), h "ELSE" (by simp)]
  | variablesGet => exact absurd (.inl hkind) hlook
  | procedureCall returns =>
    cases returns with
    | true => exact absurd (.inr hkind) hlook
    | false => rfl
  | _ => rfl

/-- The type of a block that does not consult the table is the same by every table. -/
theorem within_eq_of_not_consults (h : ¬ Consults w block) (depth : Nat) :
    within w table depth block = within w table' depth block := by
  induction depth generalizing block with
  | zero => rfl
  | succ depth ih =>
    refine step_eq_of_typedSockets (fun hlook => h (.here hlook)) fun socket hsocket => ?_
    exact inSocket_eq_of_closedAt (closedAt_of_not_consults h hsocket) fun child hchild => ih hchild

theorem ofChild_eq_of_closedAt (h : ClosedAt w block socket) :
    ofChild w table block socket = ofChild w table' block socket :=
  inSocket_eq_of_closedAt h fun _ hchild => within_eq_of_not_consults hchild w.size

end

end StaticType

namespace Inference

open StaticType (merge object widen mergeAll? ClosedAt)

/-- Finds the types of all variables and procedures, with the blocks in a given order. -/
def inferIn (w : Workspace) (order : List Block) : Inference Unit := do
  order.forM (addValues w)
  modify (fun table => w.variableNames.foldl TypeTable.declare table)
  order.forM (addResult w)

theorem inferAll_eq_inferIn (w : Workspace) : inferAll w = inferIn w (enabledBlocks w) := rfl

/-- No value that an enabled block gives to a variable consults the table. -/
def IsClosed (w : Workspace) : Prop :=
  ∀ giving ∈ givings w, ClosedAt w giving.giver giving.socket

/-- The types of the values that enabled blocks give to a variable. -/
def assignedTypes (w : Workspace) (name : String) : List String :=
  (givings w).filterMap fun giving =>
    if giving.name = name then knownType w {} giving.giver giving.socket else none

variable {w : Workspace} {order : List Block} {s t : TypeTable}

/-! ## When inference ends well -/

theorem sure_addValues (h : Able (addValues w block)) : Sure (addValues w block) := by
  have hpruned := @sure_addValues_prune w (fun _ => false) block h
  rwa [Workspace.prune_none] at hpruned

theorem sure_addResult (h : Able (addResult w block)) : Sure (addResult w block) := by
  have hpruned := @sure_addResult_prune w (fun _ => false) block h
  rwa [Workspace.prune_none] at hpruned

/-- Inference ends well if each of its steps can, and it does not matter when it comes to which. -/
theorem exists_yields_inferIn_iff :
    (∃ after, Yields (inferIn w order) s () after) ↔
      ∀ block ∈ order, Able (addValues w block) ∧ Able (addResult w block) := by
  constructor
  · rintro ⟨after, hyields⟩ block hblock
    have h : Able (inferIn w order) := ⟨s, (), after, hyields⟩
    obtain ⟨_, hrest⟩ := h.right
    obtain ⟨_, hresults⟩ := hrest.right
    exact ⟨h.left.of_mem_forM hblock, hresults.of_mem_forM hblock⟩
  · intro h
    have hsure : Sure (inferIn w order) :=
      (Sure.forM _ fun block hblock => sure_addValues (h block hblock).1).bind fun _ =>
        (Sure.modify _).bind fun _ =>
          Sure.forM _ fun block hblock => sure_addResult (h block hblock).2
    obtain ⟨_, after, hyields⟩ := hsure s
    exact ⟨after, hyields⟩

/-! ## What inference finds -/

theorem variableTypes_of_yields_inferIn (h : Yields (inferIn w order) s () t) :
    t.variableTypes =
      (w.variableNames.foldl TypeTable.declare
        ((order.flatMap (givingsOf w)).foldl (take w) s)).variableTypes := by
  unfold inferIn at h
  simp only [forM_eq_forM, yields_bind, yields_modify] at h
  obtain ⟨_, m, hvalues, _, m', rfl, hresults⟩ := h
  rw [eq_of_yields_forM_addResult hresults, variableTypes_foldl_learnResult,
    eq_of_yields_forM_addValues hvalues]

/-- The values given to one variable are merged apart from all others. -/
theorem get?_foldl_take {givings : List Giving}
    (hclosed : ∀ giving ∈ givings, ClosedAt w giving.giver giving.socket) (name : String) :
    (givings.foldl (take w) s).variableTypes.get? name =
      (givings.filterMap fun giving =>
        if giving.name = name then knownType w {} giving.giver giving.socket else none).foldl
          (fun known type => some (widen known type)) (s.variableTypes.get? name) := by
  induction givings generalizing s with
  | nil => rfl
  | cons giving rest ih =>
    have hknown : knownType w s giving.giver giving.socket =
        knownType w {} giving.giver giving.socket := by
      unfold knownType
      rw [StaticType.ofChild_eq_of_closedAt (hclosed giving mem_cons_self)]
    rw [foldl_cons, ih (forall_mem_cons.1 hclosed).2, take, hknown]
    cases htype : knownType w {} giving.giver giving.socket with
    | none => simp [htype, TypeTable.assign]
    | some type =>
      rw [get?_assign_some]
      by_cases hname : giving.name = name
      · subst hname
        simp [htype]
      · simp [hname, Ne.symm hname]

theorem get?_declare (table : TypeTable) (declared name : String) :
    (table.declare declared).variableTypes.get? name =
      (table.variableTypes.get? name).or (if name = declared then some object else none) := by
  unfold TypeTable.declare Dict.insertIfNew
  by_cases heq : name = declared
  · subst heq
    cases hknown : table.variableTypes.get? name <;> simp [Dict.contains, hknown]
  · split <;> simp [heq]

theorem get?_foldl_declare (names : List String) (table : TypeTable) (name : String) :
    (names.foldl TypeTable.declare table).variableTypes.get? name =
      (table.variableTypes.get? name).or (if name ∈ names then some object else none) := by
  induction names generalizing table with
  | nil => simp
  | cons declared rest ih =>
    rw [foldl_cons, ih, get?_declare, Option.or_assoc]
    by_cases heq : name = declared <;> simp [heq]

/-- The types that inference finds for the variables of a closed workspace. -/
theorem get?_variableTypes_of_yields (hclosed : IsClosed w) (horder : order.Perm (enabledBlocks w))
    (h : Yields (inferIn w order) {} () t) (name : String) :
    t.variableTypes.get? name =
      (mergeAll? (assignedTypes w name)).or
        (if name ∈ w.variableNames then some object else none) := by
  have hgivings : (order.flatMap (givingsOf w)).Perm (givings w) := horder.flatMap_right _
  have hclosed' : ∀ giving ∈ order.flatMap (givingsOf w), ClosedAt w giving.giver giving.socket :=
    fun giving hgiving => hclosed giving (hgivings.mem_iff.1 hgiving)
  rw [variableTypes_of_yields_inferIn h, get?_foldl_declare, get?_foldl_take hclosed', assignedTypes,
    ← StaticType.mergeAll?_perm (hgivings.filterMap _), StaticType.mergeAll?_eq_foldl_widen]
  rfl

theorem variableType_of_yields (hclosed : IsClosed w) (horder : order.Perm (enabledBlocks w))
    (h : Yields (inferIn w order) {} () t) (name : String) :
    t.variableType name = (mergeAll? (assignedTypes w name)).getD object := by
  unfold TypeTable.variableType
  rw [get?_variableTypes_of_yields hclosed horder h]
  cases mergeAll? (assignedTypes w name) with
  | some type => rfl
  | none => by_cases hdeclared : name ∈ w.variableNames <;> simp [hdeclared]

/-- Merging types is a join with `Object` on top. So if no value that is given to a variable consults
what is known of variables and procedures, the types of the variables do not depend on the order in
which the enabled blocks are gone through: inference ends well in one order if it does in the order of
the identities, it finds the same types for the variables, and the type of each variable is the merge
of all types that it is given by enabled blocks, or `Object` if there is none. -/
theorem closed_inference_is_order_free :
    (∀ a b, merge a b = merge b a) ∧ (∀ a b c, merge (merge a b) c = merge a (merge b c)) ∧
    (∀ a, merge a a = a) ∧ (∀ a, merge object a = object ∧ merge a object = object) ∧
    ∀ w : Workspace, IsClosed w → ∀ order : List Block, order.Perm (enabledBlocks w) →
      ((∃ after, Yields (inferIn w order) {} () after) ↔ ∃ after, Yields (inferAll w) {} () after) ∧
      ∀ after, Yields (inferIn w order) {} () after →
        (∀ after', Yields (inferAll w) {} () after' → after.variableTypes = after'.variableTypes) ∧
        ∀ name, after.variableType name = (mergeAll? (assignedTypes w name)).getD object := by
  refine ⟨StaticType.merge_comm, StaticType.merge_assoc, StaticType.merge_self,
    fun a => ⟨StaticType.object_takes a, StaticType.merge_object a⟩, ?_⟩
  intro w hclosed order horder
  rw [inferAll_eq_inferIn]
  refine ⟨?_, ?_⟩
  · rw [exists_yields_inferIn_iff, exists_yields_inferIn_iff]
    simp only [horder.mem_iff]
  · intro after hafter
    refine ⟨?_, variableType_of_yields hclosed horder hafter⟩
    intro after' hafter'
    apply Dict.ext_get?
    intro name
    rw [get?_variableTypes_of_yields hclosed horder hafter,
      get?_variableTypes_of_yields hclosed (.refl _) hafter']

/-! ## A number and a fraction -/

namespace SpeedSample

def assignment (id value : String) : Block :=
  { id, typeName := "variables_set", kind := .variablesSet
    fields := Dict.ofList [("VAR", "speed")], values := Dict.ofList [("VALUE", value)] }

def number : Block :=
  { id := "a1", typeName := "math_number", kind := .mathNumber
    fields := Dict.ofList [("NUM", "1")], parent := some (.value "a" "VALUE") }

def fraction : Block :=
  { id := "b1", typeName := "math_arithmetic", kind := .mathArithmetic
    fields := Dict.ofList [("OP", "DIVIDE")], parent := some (.value "b" "VALUE") }

/-- The assignments `speed := 1` and `speed := 0 / 0` in two stacks. -/
def workspace : Workspace where
  blocks := [assignment "a" "a1", number, assignment "b" "b1", fraction]
  variableNames := ["speed"]
  distinct := show ["a", "a1", "b", "b1"].Nodup by decide

theorem enabledBlocks_eq : enabledBlocks workspace = workspace.blocks := by
  have hsorted : workspace.blocks.Pairwise (fun a b => a.id ≤ b.id) := by decide
  unfold enabledBlocks
  rw [Workspace.byId_eq_blocks hsorted]
  rfl

theorem givings_eq :
    givings workspace =
      [⟨assignment "a" "a1", "VALUE", "speed"⟩, ⟨assignment "b" "b1", "VALUE", "speed"⟩] := by
  unfold givings
  rw [enabledBlocks_eq]
  rfl

theorem isClosed : IsClosed workspace := by
  have hleaf : ∀ block ∈ [number, fraction], ¬ StaticType.Consults workspace block := by
    rintro block hblock (⟨hlook⟩ | ⟨hsocket, -⟩)
    all_goals
      simp only [mem_cons, not_mem_nil, or_false] at hblock
      rcases hblock with rfl | rfl
    · simp [StaticType.LooksUp, number] at hlook
    · simp [StaticType.LooksUp, fraction] at hlook
    · cases hsocket
    · cases hsocket
  unfold IsClosed
  rw [givings_eq]
  intro giving hgiving id child hvalue hchild _
  apply hleaf
  simp only [mem_cons, not_mem_nil, or_false] at hgiving
  rcases hgiving with rfl | rfl
  · cases hvalue
    cases hchild
    exact mem_cons_self
  · cases hvalue
    cases hchild
    simp

/-- Gone through from the last block to the first, both assignments count, and the wider type is that
of the variable. -/
theorem speed_is_double_in_any_order :
    IsClosed workspace ∧ workspace.blocks.reverse.Perm (enabledBlocks workspace) ∧
      ∃ after, Yields (inferIn workspace workspace.blocks.reverse) {} () after ∧
        after.variableType "speed" = "double" := by
  have horder : workspace.blocks.reverse.Perm (enabledBlocks workspace) := by
    rw [enabledBlocks_eq]
    exact reverse_perm _
  refine ⟨isClosed, horder, ?_⟩
  obtain ⟨-, htypes⟩ := closed_inference_is_order_free.2.2.2.2 workspace isClosed _ horder
  obtain ⟨_, hyields⟩ : ∃ result, Yields (inferIn workspace workspace.blocks.reverse) {} result _ :=
    exists_yields (by rfl)
  refine ⟨_, hyields, ?_⟩
  rw [(htypes _ hyields).2, assignedTypes, givings_eq]
  rfl

end SpeedSample

end Inference

end RobotBlocks
