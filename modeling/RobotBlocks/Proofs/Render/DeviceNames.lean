import RobotBlocks.Proofs.Render.UsableNames

/-!
# Identifiers that are words

An identifier has to be a word: characters of identifiers, the first of them no digit. What is left of
a name is one, and so it is with a number behind it. But a device whose plain name is busy gets
the name of its class as well, and that is put behind as it is. The name of an inner class has a dot in
it, so that such an identifier is no word.

`NameTable.DevicesSpelled` tells the two ways in which the identifier of a device is spelled. From it
follows exactly which identifiers of a run are words (`identifier_is_word_iff`).
-/

set_option autoImplicit false

namespace RobotBlocks

open Grammar List NameTable
open Identifier (isIdentifierChar)

/-- What stands behind a word decides whether both together are one. -/
theorem Grammar.IsWord.append_iff {cs rest : List Char} (h : IsWord cs) :
    IsWord (cs ++ rest) ↔ ∀ c ∈ rest, isIdentifierChar c = true := by
  constructor
  · intro hword c hc
    exact hword.chars c (mem_append_right cs hc)
  · intro hrest
    refine ⟨append_ne_nil_of_left_ne_nil h.ne_nil rest, fun c hc => ?_, fun c hc => ?_⟩
    · rcases mem_append.1 hc with hc | hc
      · exact h.chars c hc
      · exact hrest c hc
    · rw [head?_append_of_ne_nil cs h.ne_nil] at hc
      exact h.head c hc

namespace NameTable

/-- What a device is called if its plain name is busy. -/
def classed (name className : String) : String := Identifier.plain name ++ "As" ++ className

theorem baseFor_device (table : NameTable) (className name : String) :
    table.baseFor (.deviceNames className) name =
      if table.busy (Identifier.plain name) then classed name className
      else Identifier.plain name := rfl

/-- The identifier with the name of a class in it is a word exactly if that name consists of characters
of identifiers; a number behind it makes no difference. -/
theorem isWord_numbered_classed_iff (name className : String) (number : Nat) :
    IsWord (numbered (classed name className) number).toList ↔
      ∀ c ∈ className.toList, isIdentifierChar c = true := by
  have hplain := isWord_plain name
  have hhead : IsWord ((Identifier.plain name).toList ++ "As".toList) :=
    hplain.append_iff.2 (all_eq_true.1 rfl)
  have hclassed : (classed name className).toList =
      (Identifier.plain name).toList ++ "As".toList ++ className.toList := by
    simp only [classed, String.toList_append]
  constructor
  · intro h c hc
    apply h.chars
    unfold numbered
    split
    · rw [hclassed]
      exact mem_append_right _ hc
    · rw [String.toList_append, hclassed]
      exact mem_append_left _ (mem_append_right _ hc)
  · intro h
    apply isWord_numbered
    rw [hclassed]
    exact hhead.append_iff.2 h

theorem numbered_classed_ne_plain (name className : String) (number : Nat) :
    numbered (classed name className) number ≠ Identifier.plain name := by
  intro h
  have hlength := congrArg (fun text => text.toList.length) h
  unfold numbered classed at hlength
  split at hlength <;> simp at hlength

/-- The identifier of a device is its plain name, or the one with the name of its class. -/
def DevicesSpelled (table : NameTable) : Prop :=
  ∀ className name identifier, table.assigned? (.deviceNames className) name = some identifier →
    identifier = Identifier.plain name ∨
      ∃ number, identifier = numbered (classed name className) number

theorem devicesSpelled_empty : DevicesSpelled {} := by
  intro className name identifier h
  cases h

theorem devicesSpelled_identifierFor {table : NameTable} (h : table.DevicesSpelled)
    (space : Namespace) (name : String) : (table.identifierFor space name).2.DevicesSpelled := by
  intro className other identifier hother
  rcases assigned?_identifierFor hother with hother | ⟨rfl, rfl, hnew, rfl⟩
  · exact h className other identifier hother
  · cases hbusy : table.busy (Identifier.plain other) with
    | false => exact .inl (identifierFor_eq_plain hnew hbusy)
    | true =>
      rw [identifierFor_of_new hnew, baseFor_device, if_pos hbusy]
      exact .inr ⟨_, rfl⟩

end NameTable

theorem Context.devicesSpelled_gathered (own : Option String) (operations : List Operation) :
    (gathered own operations).names.DevicesSpelled := by
  refine names_after (fun _ space name h => ?_) (fun _ base h => ?_) operations ?_
  · exact devicesSpelled_identifierFor h space name
  · exact h
  · exact devicesSpelled_empty

/-- A new name gets its plain spelling exactly if that is free. -/
theorem NameTable.identifierFor_eq_plain_iff {table : NameTable} {space : Namespace} {name : String}
    (hnew : table.assigned? space name = none) :
    (table.identifierFor space name).1 = Identifier.plain name ↔
      table.busy (Identifier.plain name) = false := by
  refine ⟨fun h => ?_, identifierFor_eq_plain hnew⟩
  rcases identifierFor_cases table space name with ⟨_, hsome, -⟩ | ⟨identifier, -, hfree, heq⟩
  · rw [hnew] at hsome
    cases hsome
  · rw [heq] at h
    exact h ▸ hfree

/-- Whatever a run was asked before, the identifier of a name is a word, unless it is that of a device
whose class has a character in its name that no identifier may have, and it is not the plain name of
the device. A new name gets its plain spelling exactly if that is neither reserved nor taken. -/
theorem identifier_is_word_iff (setting : Setting) (requests : List Request) (space : Namespace)
    (name : String) :
    let table := (setting.draftAfter requests).context.names
    let identifier := (table.identifierFor space name).1
    (IsWord identifier.toList ↔
      ∀ className, space = .deviceNames className → identifier = Identifier.plain name ∨
        ∀ c ∈ className.toList, isIdentifierChar c = true) ∧
    (table.assigned? space name = none →
      (identifier = Identifier.plain name ↔ table.busy (Identifier.plain name) = false)) := by
  intro table identifier
  obtain ⟨own, operations, hcontext⟩ := setting.context_draftAfter requests
  have hassigned : (table.identifierFor space name).2.assigned? space name = some identifier :=
    (identifierFor_spec table space name).2
  refine ⟨?_, identifierFor_eq_plain_iff⟩
  -- only devices have the name of a class in their identifiers
  have hauthored : ∀ naming : Naming, space = naming.space → IsWord identifier.toList := by
    rintro naming rfl
    have hspelled : table.Spelled := by
      rw [show table = _ from congrArg Context.names hcontext]
      exact Context.spelled_gathered _ operations
    obtain ⟨-, number, hnumber⟩ :=
      spelled_identifierFor hspelled naming.space name naming name identifier hassigned
    rw [hnumber]
    exact isWord_numbered (isWord_plain name) number
  cases space with
  | variableNames => exact iff_of_true (hauthored .variableName rfl) (fun _ h => by cases h)
  | procedureNames => exact iff_of_true (hauthored .procedureName rfl) (fun _ h => by cases h)
  | deviceNames className =>
    have hspelled : table.DevicesSpelled := by
      rw [show table = _ from congrArg Context.names hcontext]
      exact Context.devicesSpelled_gathered _ operations
    simp only [Namespace.deviceNames.injEq, forall_eq']
    rcases devicesSpelled_identifierFor hspelled _ name className name identifier hassigned
      with hplain | ⟨number, hnumber⟩
    · refine iff_of_true ?_ (.inl hplain)
      rw [hplain]
      exact isWord_plain name
    · rw [hnumber, isWord_numbered_classed_iff]
      simp [numbered_classed_ne_plain]

/-! ## A device that is called like a word of the target -/

namespace InnerClassSample

def signature : CallSignature where
  lookup := "com.example.Outer$Inner.raise()"
  returnType := "void"
  comment := ""
  accessMethod := "callJava"
  conversion := ""
  className := "com.example.Outer$Inner"
  simpleName := "Outer.Inner"
  parameters := []

def call : Block :=
  Block.applyMutation
    { id := "a", typeName := "misc_callHardware_noReturn", kind := .callDevice false
      fields := Dict.ofList [("DEVICE_NAME", "break"), ("METHOD_NAME", "raise")]
      mutation := some (.call signature) }

def setting : Setting where
  workspace := { blocks := [call], distinct := by decide }
  target := .java

/-- A motor of that name gets an identifier with its class in it, which is a word. -/
theorem reserved_motor_has_word :
    let table := (setting.draftAfter []).context.names
    let identifier := (table.identifierFor (.deviceNames "DcMotor") "break").1
    table.assigned? (.deviceNames "DcMotor") "break" = none ∧
      identifier ≠ Identifier.plain "break" ∧ IsWord identifier.toList := by
  intro table identifier
  have hnew : table.assigned? (.deviceNames "DcMotor") "break" = none := rfl
  have hbusy : table.busy (Identifier.plain "break") = true := by rfl
  obtain ⟨hword, hplain⟩ := identifier_is_word_iff setting [] (.deviceNames "DcMotor") "break"
  refine ⟨hnew, fun h => ?_, hword.2 ?_⟩
  · rw [(hplain hnew).1 h] at hbusy
    cases hbusy
  · intro className hclass
    cases hclass
    exact .inr (all_eq_true.1 rfl)

/-- The identifier of the device of the inner class is no word, and it is written into the program. -/
theorem inner_class_leaves_no_word :
    ∃ after, Yields (setting.renderer.statement call) setting.firstDraft
        "breakAsOuter.Inner.raise();\n" after ∧
      after.context.collected.fields = ["private Outer.Inner breakAsOuter.Inner;"] ∧
      ¬ IsWord "breakAsOuter.Inner".toList := by
  have hrun : ((setting.renderer.statement call).run.run setting.firstDraft).1 =
        .ok "breakAsOuter.Inner.raise();\n" ∧
      ((setting.renderer.statement call).run.run setting.firstDraft).2.context.collected.fields =
        ["private Outer.Inner breakAsOuter.Inner;"] := by
    decide +kernel
  exact ⟨_, yields_of_fst_run_eq hrun.1, hrun.2, by decide⟩

end InnerClassSample

end RobotBlocks
