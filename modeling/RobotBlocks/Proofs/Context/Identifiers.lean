import RobotBlocks.Proofs.Context.Operations
import RobotBlocks.Proofs.Lists
import RobotBlocks.Proofs.NameTable.FreeNumber

/-!
# Identifiers of a run are told apart

Whatever a context is asked for, and in whatever order, a name keeps the identifier that it got
first, different names have different identifiers, a helper name is equal to nothing that was handed
out before or is handed out later, and nothing reserved is ever handed out.

The invariant `Recorded` ties the answers given so far to the table of identifiers. It holds before
the first operation, and every operation keeps it (`recorded_apply`): a memorised identifier changes
nothing, and a new one is free, so it differs from all that are taken. What a whole run does follows
by induction (`recorded_run`).
-/

set_option autoImplicit false

namespace RobotBlocks

open List NameTable

variable {space : Namespace} {name identifier : String}

namespace NameTable

theorem assigned?_cons (table : NameTable) (key : Namespace × String) (identifier : String)
    (taken : List String) (space : Namespace) (name : String) :
    { table with assigned := (key, identifier) :: table.assigned, taken := taken }.assigned? space
      name = if key = (space, name) then some identifier else table.assigned? space name := by
  unfold assigned?
  by_cases h : key = (space, name) <;> simp [h]

/-- The identifier of a name is the one that it has, or else a free one that is entered for it. -/
theorem identifierFor_cases (table : NameTable) (space : Namespace) (name : String) :
    (∃ identifier, table.assigned? space name = some identifier ∧
      table.identifierFor space name = (identifier, table)) ∨
    (∃ identifier, table.assigned? space name = none ∧ table.busy identifier = false ∧
      table.identifierFor space name =
        (identifier,
          { table with
            assigned := ((space, name), identifier) :: table.assigned
            taken := identifier :: table.taken })) := by
  unfold identifierFor
  cases hassigned : table.assigned? space name with
  | some identifier => exact .inl ⟨identifier, rfl, rfl⟩
  | none => exact .inr ⟨_, rfl, not_busy_freeNumber table _ 1, rfl⟩

/-- A name that has an identifier after a request had it before, or is the name that was asked for. -/
theorem assigned?_identifierFor {table : NameTable} {space' : Namespace} {name' : String}
    (h : (table.identifierFor space name).2.assigned? space' name' = some identifier) :
    table.assigned? space' name' = some identifier ∨
      space' = space ∧ name' = name ∧ table.assigned? space name = none ∧
        identifier = (table.identifierFor space name).1 := by
  rcases identifierFor_cases table space name with ⟨_, -, heq⟩ | ⟨found, hnone, -, heq⟩
  · rw [heq] at h
    exact .inl h
  · rw [heq, assigned?_cons] at h
    rw [heq]
    split at h
    · next hkey =>
      cases hkey
      exact .inr ⟨rfl, rfl, hnone, (Option.some.inj h).symm⟩
    · exact .inl h

theorem identifierFor_of_new {table : NameTable} (h : table.assigned? space name = none) :
    (table.identifierFor space name).1 =
      numbered (table.baseFor space name) (table.freeNumber (table.baseFor space name) 1) := by
  rw [identifierFor, h]

theorem distinctName_cases (table : NameTable) (base : String) :
    ∃ identifier counters, table.busy identifier = false ∧
      table.distinctName base =
        (identifier, { table with taken := identifier :: table.taken, counters := counters }) :=
  ⟨_, _, not_busy_freeNumber table base _, rfl⟩

theorem busy_eq_false_iff (table : NameTable) (identifier : String) :
    table.busy identifier = false ↔
      Identifier.isReserved identifier = false ∧ identifier ∉ table.taken := by
  simp [busy]

end NameTable

namespace Context

/-- An operation with the identifier that it handed out. -/
abbrev Answer := Operation × Option String

/-- Whether an answer is a helper name. -/
def IsHelper (answer : Answer) : Prop := ∃ base, answer.1 = .distinctName base

/-- How a table of identifiers fits the answers given so far. -/
structure Recorded (answers : List Answer) (table : NameTable) : Prop where
  free : ∀ identifier ∈ table.taken, Identifier.isReserved identifier = false
  taken : ∀ answer ∈ answers, ∀ identifier, answer.2 = some identifier → identifier ∈ table.taken
  assigned_taken : ∀ space name identifier,
    table.assigned? space name = some identifier → identifier ∈ table.taken
  assigned_injective : ∀ space name space' name' identifier,
    table.assigned? space name = some identifier → table.assigned? space' name' = some identifier →
      (space, name) = (space', name')
  /-- A name has the identifier that was handed out for it. -/
  assigned : ∀ space name identifier, (.identifierFor space name, some identifier) ∈ answers →
    table.assigned? space name = some identifier
  /-- No name has a helper name as its identifier. -/
  helper_unassigned : ∀ base identifier, (.distinctName base, some identifier) ∈ answers →
    ∀ space name, table.assigned? space name ≠ some identifier
  /-- Answers that are equal are none of them helper names. -/
  helper_distinct : answers.Pairwise fun earlier later =>
    ∀ identifier, earlier.2 = some identifier → later.2 = some identifier →
      ¬ IsHelper earlier ∧ ¬ IsHelper later

theorem recorded_empty : Recorded [] {} where
  free := by simp
  taken := by simp
  assigned_taken := by simp [NameTable.assigned?]
  assigned_injective := by simp [NameTable.assigned?]
  assigned := by simp
  helper_unassigned := by simp
  helper_distinct := List.Pairwise.nil

section Step

variable {answers : List Answer} {table : NameTable}

section

variable (h : Recorded answers table)

include h

theorem Recorded.snoc_none (operation : Operation) :
    Recorded (answers ++ [(operation, none)]) table where
  free := h.free
  taken := forall_mem_append.2 ⟨h.taken, by simp⟩
  assigned_taken := h.assigned_taken
  assigned_injective := h.assigned_injective
  assigned := by
    intro space name identifier hmem
    exact h.assigned space name identifier (by simpa using hmem)
  helper_unassigned := by
    intro base identifier hmem
    exact h.helper_unassigned base identifier (by simpa using hmem)
  helper_distinct := pairwise_concat h.helper_distinct (by simp)

/-- A memorised identifier is handed out again. -/
theorem Recorded.snoc_memorised (hassigned : table.assigned? space name = some identifier) :
    Recorded (answers ++ [(.identifierFor space name, some identifier)]) table where
  free := h.free
  taken := forall_mem_append.2
    ⟨h.taken, by simpa using h.assigned_taken space name identifier hassigned⟩
  assigned_taken := h.assigned_taken
  assigned_injective := h.assigned_injective
  assigned := by
    intro space' name' found hmem
    rcases mem_append.1 hmem with hmem | hmem
    · exact h.assigned space' name' found hmem
    · simp only [mem_singleton, Prod.mk.injEq, Operation.identifierFor.injEq,
        Option.some.injEq] at hmem
      obtain ⟨⟨rfl, rfl⟩, rfl⟩ := hmem
      exact hassigned
  helper_unassigned := by
    intro base found hmem
    exact h.helper_unassigned base found (by simpa using hmem)
  helper_distinct := by
    refine pairwise_concat h.helper_distinct fun earlier hearlier found hfound hsame => ?_
    cases hsame
    refine ⟨?_, by simp [IsHelper]⟩
    -- A helper name among the earlier answers would be the identifier of this name.
    rintro ⟨base, hbase⟩
    have hmem : (.distinctName base, some identifier) ∈ answers := by
      rw [← hbase, ← hfound]
      exact hearlier
    exact h.helper_unassigned base identifier hmem space name hassigned

/-- A free identifier is handed out for a name that has none. -/
theorem Recorded.snoc_new (hnone : table.assigned? space name = none)
    (hfree : table.busy identifier = false) :
    Recorded (answers ++ [(.identifierFor space name, some identifier)])
      { table with
        assigned := ((space, name), identifier) :: table.assigned
        taken := identifier :: table.taken } := by
  obtain ⟨hreserved, hnew⟩ := (busy_eq_false_iff table identifier).1 hfree
  have hfresh : ∀ space' name' found,
      table.assigned? space' name' = some found → found ≠ identifier :=
    fun space' name' found hfound hsame =>
      hnew (hsame ▸ h.assigned_taken space' name' found hfound)
  constructor
  case free => exact forall_mem_cons.2 ⟨hreserved, h.free⟩
  case taken =>
    refine forall_mem_append.2 ⟨fun answer hanswer found hfound => ?_, by simp⟩
    exact mem_cons_of_mem _ (h.taken answer hanswer found hfound)
  case assigned_taken =>
    intro space' name' found hfound
    rw [assigned?_cons] at hfound
    split at hfound
    · have : identifier = found := by simpa using hfound
      simp [this]
    · exact mem_cons_of_mem _ (h.assigned_taken space' name' found hfound)
  case assigned_injective =>
    intro space₁ name₁ space₂ name₂ found h₁ h₂
    rw [assigned?_cons] at h₁ h₂
    split at h₁
    · rename_i hkey₁
      split at h₂
      · rename_i hkey₂
        exact hkey₁.symm.trans hkey₂
      · have : identifier = found := by simpa using h₁
        exact absurd this.symm (hfresh space₂ name₂ found h₂)
    · split at h₂
      · have : identifier = found := by simpa using h₂
        exact absurd this.symm (hfresh space₁ name₁ found h₁)
      · exact h.assigned_injective space₁ name₁ space₂ name₂ found h₁ h₂
  case assigned =>
    intro space' name' found hmem
    rw [assigned?_cons]
    rcases mem_append.1 hmem with hmem | hmem
    · have hold := h.assigned space' name' found hmem
      have hne : (space, name) ≠ (space', name') := by
        intro heq
        simp only [Prod.mk.injEq] at heq
        rw [← heq.1, ← heq.2, hnone] at hold
        exact absurd hold (by simp)
      rw [if_neg hne]
      exact hold
    · simp only [mem_singleton, Prod.mk.injEq, Operation.identifierFor.injEq,
        Option.some.injEq] at hmem
      obtain ⟨⟨rfl, rfl⟩, rfl⟩ := hmem
      rw [if_pos rfl]
  case helper_unassigned =>
    intro base found hmem space' name'
    have hold : (.distinctName base, some found) ∈ answers := by simpa using hmem
    rw [assigned?_cons]
    split
    · intro hsame
      have : identifier = found := by simpa using hsame
      exact hnew (this ▸ h.taken _ hold found rfl)
    · exact h.helper_unassigned base found hold space' name'
  case helper_distinct =>
    refine pairwise_concat h.helper_distinct fun earlier hearlier found hfound hsame => ?_
    cases hsame
    exact absurd (h.taken earlier hearlier identifier hfound) hnew

/-- A free identifier is handed out as a helper name. -/
theorem Recorded.snoc_helper (base : String) (counters : Dict Nat)
    (hfree : table.busy identifier = false) :
    Recorded (answers ++ [(.distinctName base, some identifier)])
      { table with taken := identifier :: table.taken, counters := counters } := by
  obtain ⟨hreserved, hnew⟩ := (busy_eq_false_iff table identifier).1 hfree
  constructor
  case free => exact forall_mem_cons.2 ⟨hreserved, h.free⟩
  case taken =>
    refine forall_mem_append.2 ⟨fun answer hanswer found hfound => ?_, by simp⟩
    exact mem_cons_of_mem _ (h.taken answer hanswer found hfound)
  case assigned_taken =>
    intro space name found hfound
    exact mem_cons_of_mem _ (h.assigned_taken space name found hfound)
  case assigned_injective => exact h.assigned_injective
  case assigned =>
    intro space name found hmem
    exact h.assigned space name found (by simpa using hmem)
  case helper_unassigned =>
    intro base' found hmem space name hfound
    rcases mem_append.1 hmem with hmem | hmem
    · exact h.helper_unassigned base' found hmem space name hfound
    · simp only [mem_singleton, Prod.mk.injEq, Option.some.injEq] at hmem
      exact hnew (hmem.2 ▸ h.assigned_taken space name found hfound)
  case helper_distinct =>
    refine pairwise_concat h.helper_distinct fun earlier hearlier found hfound hsame => ?_
    cases hsame
    exact absurd (h.taken earlier hearlier identifier hfound) hnew

end

end Step

variable {answers : List Answer}

/-- Every operation keeps the table and the answers in step. -/
theorem recorded_apply {context : Context} (h : Recorded answers context.names)
    (operation : Operation) :
    Recorded (answers ++ [(operation, (operation.apply context).1)])
      (operation.apply context).2.names := by
  cases hnaming : operation.isNaming with
  | false =>
    obtain ⟨hanswer, hnames⟩ := names_apply_of_not_naming hnaming context
    rw [hanswer, hnames]
    exact h.snoc_none operation
  | true =>
    cases operation with
    | identifierFor space name =>
      simp only [Operation.apply, Context.identifierFor]
      rcases identifierFor_cases context.names space name with
        ⟨identifier, hassigned, heq⟩ | ⟨identifier, hnone, hfree, heq⟩
      · rw [heq]
        exact h.snoc_memorised hassigned
      · rw [heq]
        exact h.snoc_new hnone hfree
    | distinctName base =>
      simp only [Operation.apply, Context.distinctName]
      obtain ⟨identifier, counters, hfree, heq⟩ :=
        distinctName_cases context.names base
      rw [heq]
      exact h.snoc_helper base counters hfree
    | _ => simp [Operation.isNaming] at hnaming

theorem recorded_run {context : Context} (h : Recorded answers context.names)
    (operations : List Operation) :
    Recorded (answers ++ (context.run operations).1) (context.run operations).2.names := by
  induction operations generalizing answers context with
  | nil => simpa [run] using h
  | cons operation rest ih =>
    have hrest := ih (recorded_apply h operation)
    simpa [run] using hrest

theorem recorded_run_empty (package : Option String) (operations : List Operation) :
    Recorded (run { ownPackage := package } operations).1
      (run { ownPackage := package } operations).2.names := by
  have h : Recorded ([] ++ (run { ownPackage := package } operations).1) _ :=
    recorded_run recorded_empty operations
  simpa using h

/-- In every run from an empty context, every request for a name is answered; a name gets one
identifier only; different names, also equal texts of different namespaces and texts that leave the
same identifier, get different ones; a helper name differs from everything handed out before it and
after it; and nothing reserved is handed out. -/
theorem identifiers_told_apart (package : Option String) (operations : List Operation) :
    let answers := (run { ownPackage := package } operations).1
    answers.map Prod.fst = operations ∧
    (∀ answer ∈ answers, answer.1.isNaming = true → answer.2.isSome = true) ∧
    (∀ space name a b, (.identifierFor space name, some a) ∈ answers →
      (.identifierFor space name, some b) ∈ answers → a = b) ∧
    (∀ space name space' name' a b, (.identifierFor space name, some a) ∈ answers →
      (.identifierFor space' name', some b) ∈ answers → (space, name) ≠ (space', name') → a ≠ b) ∧
    (∀ before base a after, answers = before ++ (.distinctName base, some a) :: after →
      ∀ answer ∈ before ++ after, answer.2 ≠ some a) ∧
    (∀ answer ∈ answers, ∀ a, answer.2 = some a → Identifier.isReserved a = false) := by
  intro answers
  have h : Recorded answers _ := recorded_run_empty package operations
  refine ⟨map_fst_run _ operations, isSome_answer_of_isNaming _ operations, ?_, ?_, ?_, ?_⟩
  · intro space name a b ha hb
    have hassigned := h.assigned space name a ha
    rw [h.assigned space name b hb] at hassigned
    simpa using hassigned.symm
  · intro space name space' name' a b ha hb hne hab
    refine hne (h.assigned_injective space name space' name' a (h.assigned space name a ha) ?_)
    rw [hab]
    exact h.assigned space' name' b hb
  · intro before base a after hsplit answer hanswer hsame
    have hpairs := h.helper_distinct
    rw [hsplit, pairwise_append, pairwise_cons] at hpairs
    obtain ⟨-, ⟨hlater, -⟩, hearlier⟩ := hpairs
    rcases mem_append.1 hanswer with hanswer | hanswer
    · exact (hearlier answer hanswer _ mem_cons_self a hsame rfl).2 ⟨base, rfl⟩
    · exact (hlater answer hanswer a rfl hsame).1 ⟨base, rfl⟩
  · intro answer hanswer a ha
    exact h.free a (h.taken answer hanswer a ha)

example : (run {} [.identifierFor (.deviceNames "DcMotor") "arm",
    .identifierFor (.deviceNames "Servo") "arm", .distinctName "count",
    .identifierFor .variableNames "count 2", .distinctName "count",
    .identifierFor .procedureNames "for"]).1.map Prod.snd =
    [some "arm", some "armAsServo", some "count", some "count2", some "count3", some "for2"] := by
  decide

end Context

end RobotBlocks
