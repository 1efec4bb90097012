import RobotBlocks.Proofs.Context.Words
import RobotBlocks.Proofs.Render.Requests

/-!
# Names that the target can use

The identifier of a variable or a procedure should be no word of the target language and none of the
names that generated code itself uses without a qualifier. A run takes care of that by one list of
reserved words for both targets. Identifiers are never on the list, and they are spelled like their
names, maybe with a number behind (`NameTable.Spelled`). So what can go wrong is exactly what the
list forgets (`overlooked`): a few words, none of which ends in a digit, and each of them only for
the names that are spelled like it.
-/

set_option autoImplicit false

namespace RobotBlocks

open List NameTable

/-- What the author of a program gives names to. -/
inductive Naming where
  | variableName
  | procedureName

variable {naming : Naming} {name : String}

namespace Naming

def space : Naming → Namespace
  | variableName => .variableNames
  | procedureName => .procedureNames

def identifier : Naming → String → Render String
  | variableName => Render.variableIdentifier
  | procedureName => Render.procedureIdentifier

/-- Only the main procedure does not go through the table. -/
theorem identifier_eq (h : naming = .procedureName → name ≠ Render.mainName) :
    naming.identifier name = Render.identifierFor naming.space name := by
  cases naming with
  | variableName => rfl
  | procedureName => exact if_neg (h rfl)

end Naming

/-! ## What a target does not allow -/

namespace Target

/-- The reserved words of the language: keywords, literals, and for scripts those of strict mode. -/
def words : Target → List String
  | .java =>
    ["abstract", "assert", "boolean", "break", "byte", "case", "catch", "char", "class", "const",
     "continue", "default", "do", "double", "else", "enum", "extends", "final", "finally",
     "float", "for", "goto", "if", "implements", "import", "instanceof", "int", "interface",
     "long", "native", "new", "package", "private", "protected", "public", "return", "short",
     "static", "strictfp", "super", "switch", "synchronized", "this", "throw", "throws",
     "transient", "try", "void", "volatile", "while", "true", "false", "null", "_"]
  | .javaScript =>
    ["break", "case", "catch", "class", "const", "continue", "default", "do", "else", "enum",
     "extends", "finally", "for", "if", "implements", "import", "instanceof", "interface", "new",
     "package", "private", "protected", "public", "return", "static", "super", "switch", "this",
     "throw", "try", "void", "while", "true", "false", "null", "await", "delete", "export",
     "function", "in", "let", "typeof", "var", "with", "yield", "debugger"]

/-- The names that generated code uses without a qualifier. -/
def globals : Target → List String
  | .java =>
    ["hardwareMap", "telemetry", "gamepad1", "gamepad2", "Math", "String", "Double", "JavaUtil",
     "Color", "Telemetry"]
  | .javaScript =>
    ["telemetry", "gamepad1", "gamepad2", "linearOpMode", "misc", "color", "callJava",
     "callHardware", "listLength", "listIsEmpty", "telemetryAddTextData", "telemetrySpeak", "Math",
     "String", "NaN", "Infinity"]

end Target

/-- An identifier is a word of the language, or it hides a name that generated code uses. In a class
the methods of the running program are called without a receiver, so that a procedure hides them. -/
def Unusable (target : Target) (naming : Naming) (identifier : String) : Prop :=
  identifier ∈ target.words ∨ identifier ∈ target.globals ∨
    (target = .java ∧ naming = .procedureName ∧ ∃ call : OpModeCall, identifier = call.method)

/-- What should be reserved for a target and is not. -/
def overlooked : Target → Naming → List String
  | .javaScript, _ => ["debugger", "NaN", "Infinity"]
  | .java, .variableName => ["_"]
  | .java, .procedureName =>
    ["_", "waitForStart", "idle", "sleep", "opModeInInit", "opModeIsActive", "isStarted",
     "isStopRequested", "getRuntime", "resetRuntime", "requestOpModeStop", "terminateOpModeNow"]

variable {target : Target}

/-- Of the words and global names of a target only the overlooked ones are not reserved. -/
theorem isReserved_or_overlooked {word : String} (h : word ∈ target.words ++ target.globals) :
    Identifier.isReserved word = true ∨ word ∈ overlooked target .variableName := by
  have hlisted : word ∈ Identifier.reservedWords → Identifier.isReserved word = true := by
    intro hmem
    unfold Identifier.isReserved
    rw [contains_iff_mem.2 hmem, Bool.true_or]
  cases target with
  | java =>
    rcases mem_append.1 h with hword | hglobal
    · have hwords : Target.java.words = Identifier.classWords ++ ["_"] := rfl
      rw [hwords] at hword
      rcases mem_append.1 hword with hword | hword
      · exact .inl (hlisted (mem_append_left _ (mem_append_left _ hword)))
      · exact .inr hword
    · have hglobals : Target.java.globals.all Identifier.isReserved = true := by rfl
      exact .inl (all_eq_true.1 hglobals word hglobal)
  | javaScript =>
    have hall : (Target.javaScript.words ++ Target.javaScript.globals).all (fun word =>
        (Identifier.reservedWords ++ overlooked .javaScript .variableName).contains word) = true := by
      rfl
    have hmem := contains_iff_mem.1 (all_eq_true.1 hall word h)
    rcases mem_append.1 hmem with hmem | hmem
    · exact .inl (hlisted hmem)
    · exact .inr hmem

/-- In a class the methods of the running program are overlooked for procedures. -/
theorem overlooked_procedures :
    overlooked .java .procedureName = overlooked .java .variableName ++
      [.waitForStart, .idle, .sleep true, .opModeInInit, .opModeIsActive, .isStarted,
        .isStopRequested, .getRuntime true, .resetRuntime, .requestOpModeStop,
        .terminateOpModeNow].map OpModeCall.method := rfl

theorem overlooked_subset (target : Target) (naming : Naming) :
    overlooked target .variableName ⊆ overlooked target naming := by
  cases target <;> cases naming <;> simp [overlooked]

/-- Unusable among the identifiers that are not reserved are the overlooked ones. -/
theorem unusable_iff_mem_overlooked {identifier : String}
    (h : Identifier.isReserved identifier = false) :
    Unusable target naming identifier ↔ identifier ∈ overlooked target naming := by
  have hcommon : identifier ∈ target.words ++ target.globals →
      identifier ∈ overlooked target naming := by
    intro hmem
    refine overlooked_subset target naming ?_
    exact (isReserved_or_overlooked hmem).resolve_left (by simp [h])
  have hback : identifier ∈ overlooked target .variableName → Unusable target naming identifier := by
    cases target with
    | java => simp +contextual [overlooked, Unusable, Target.words]
    | javaScript =>
      intro hmem
      simp only [overlooked, mem_cons, not_mem_nil, or_false] at hmem
      rcases hmem with rfl | rfl | rfl <;> simp [Unusable, Target.words, Target.globals]
  constructor
  · rintro (hword | hglobal | ⟨rfl, rfl, call, rfl⟩)
    · exact hcommon (mem_append_left _ hword)
    · exact hcommon (mem_append_right _ hglobal)
    · cases call <;> simp [overlooked, OpModeCall.method]
  · intro hmem
    cases target with
    | javaScript => exact hback hmem
    | java =>
      cases naming with
      | variableName => exact hback hmem
      | procedureName =>
        rw [overlooked_procedures] at hmem
        rcases mem_append.1 hmem with hmem | hmem
        · exact hback hmem
        · obtain ⟨call, -, heq⟩ := mem_map.1 hmem
          exact .inr (.inr ⟨rfl, rfl, call, heq.symm⟩)

/-! ## How identifiers are spelled -/

/-- What is left of a name, or an underscore if that is nothing. -/
def Identifier.plain (name : String) : String :=
  if (ofName name).isEmpty then "_" else ofName name

namespace NameTable

variable {table : NameTable}

theorem isWord_plain (name : String) : Grammar.IsWord (Identifier.plain name).toList := by
  unfold Identifier.plain
  split
  · decide
  · next hempty => exact Identifier.isWord_ofName (by simpa using hempty)

/-- No overlooked word ends in a digit, so that it is no numbered identifier. -/
theorem eq_of_numbered_mem_overlooked {base : String} {number : Nat}
    (h : numbered base number ∈ overlooked target naming) : numbered base number = base := by
  have hlast : ∀ target naming, (overlooked target naming).all (fun word =>
      word.toList.getLast?.all (fun c => !c.isDigit)) = true := by
    rintro (_ | _) (_ | _) <;> rfl
  by_contra hne
  have happend : numbered base number = base ++ toString number := by
    unfold numbered at hne ⊢
    by_cases hone : number = 1
    · exact absurd (if_pos hone) hne
    · exact if_neg hone
  have hdigits := isDigits_toString_nat number
  rw [happend] at h
  have hend : (base ++ toString number).toList.getLast? = (toString number).toList.getLast? := by
    rw [String.toList_append]
    exact getLast?_append_of_ne_nil _ hdigits.1
  obtain ⟨c, hc⟩ := Option.isSome_iff_exists.1 (getLast?_isSome.2 hdigits.1)
  have hdigit := hdigits.2 c (mem_of_getLast? hc)
  have hword := all_eq_true.1 (hlast target naming) _ h
  rw [hend, hc] at hword
  simp [hdigit] at hword

/-- Variables and procedures have identifiers that are not reserved and spelled like their names,
with a number behind or not. -/
def Spelled (table : NameTable) : Prop :=
  ∀ (naming : Naming) (name identifier : String),
    table.assigned? naming.space name = some identifier →
      Identifier.isReserved identifier = false ∧
        ∃ number, identifier = numbered (Identifier.plain name) number

theorem spelled_empty : Spelled {} := by
  intro naming name identifier h
  cases h

theorem baseFor_space (table : NameTable) (naming : Naming) (name : String) :
    table.baseFor naming.space name = Identifier.plain name := by
  cases naming <;> rfl

theorem spelled_identifierFor (h : table.Spelled) (space : Namespace) (name : String) :
    (table.identifierFor space name).2.Spelled := by
  intro naming other identifier hother
  rcases assigned?_identifierFor hother with hother | ⟨rfl, rfl, hnew, rfl⟩
  · exact h naming other identifier hother
  · rw [identifierFor_of_new hnew, baseFor_space]
    exact ⟨((busy_eq_false_iff _ _).1 (not_busy_freeNumber table _ 1)).1, _, rfl⟩

/-- A free spelling needs nothing behind it, not even for a device. -/
theorem baseFor_of_free (hfree : table.busy (Identifier.plain name) = false) (space : Namespace) :
    table.baseFor space name = Identifier.plain name := by
  cases space with
  | deviceNames className =>
    exact if_neg (Bool.eq_false_iff.1 hfree)
  | _ => rfl

/-- A name that has no identifier gets its plain spelling if that is free. -/
theorem identifierFor_eq_plain {space : Namespace} (hnew : table.assigned? space name = none)
    (hfree : table.busy (Identifier.plain name) = false) :
    (table.identifierFor space name).1 = Identifier.plain name := by
  rw [identifierFor_of_new hnew, baseFor_of_free hfree, freeNumber_one_of_free hfree]
  rfl

end NameTable

theorem Context.spelled_gathered (own : Option String) (operations : List Operation) :
    (gathered own operations).names.Spelled := by
  refine names_after (fun _ space name h => ?_) (fun _ base h => ?_) operations ?_
  · exact spelled_identifierFor h space name
  · exact h
  · exact spelled_empty

/-- Whatever a run was asked before, a variable or a procedure other than the main one gets an
identifier, and the target can use it unless it is the plain spelling of the name and one of the
overlooked words. A new name gets its plain spelling whenever that is free. -/
theorem identifier_is_unusable_iff (setting : Setting) (requests : List Request) (naming : Naming)
    (name : String) (hmain : naming = .procedureName → name ≠ Render.mainName) :
    ∃ identifier after,
      Yields (naming.identifier name) (setting.draftAfter requests) identifier after ∧
      (Unusable setting.target naming identifier ↔
        identifier = Identifier.plain name ∧
          Identifier.plain name ∈ overlooked setting.target naming) ∧
      ((setting.draftAfter requests).context.names.assigned? naming.space name = none →
        (setting.draftAfter requests).context.names.busy (Identifier.plain name) = false →
          identifier = Identifier.plain name) := by
  obtain ⟨own, operations, hcontext⟩ := setting.context_draftAfter requests
  have hspelled : (setting.draftAfter requests).context.names.Spelled := by
    rw [hcontext]
    exact Context.spelled_gathered _ operations
  generalize setting.draftAfter requests = draft at hspelled
  rw [Naming.identifier_eq hmain]
  refine ⟨(draft.context.names.identifierFor naming.space name).1, _, rfl, ?_, ?_⟩
  · obtain ⟨hfree, number, hnumber⟩ :=
      spelled_identifierFor hspelled naming.space name naming name _
        (identifierFor_spec _ naming.space name).2
    rw [unusable_iff_mem_overlooked hfree]
    constructor
    · intro hmem
      have hplain := hnumber.trans (eq_of_numbered_mem_overlooked (hnumber ▸ hmem))
      exact ⟨hplain, hplain ▸ hmem⟩
    · rintro ⟨heq, hmem⟩
      exact heq ▸ hmem
  · exact identifierFor_eq_plain

/-- A procedure that is called like a word of the language gets an identifier that can be used. -/
theorem procedure_while_is_usable :
    "while" ≠ Render.mainName ∧
      ∃ identifier after, Yields (Naming.procedureName.identifier "while")
        (Setting.draftAfter { workspace := .empty, target := .java } []) identifier after ∧
        ¬ Unusable .java .procedureName identifier := by
  have hmain : "while" ≠ Render.mainName := by decide
  refine ⟨hmain, ?_⟩
  obtain ⟨identifier, after, hyields, hunusable, -⟩ :=
    identifier_is_unusable_iff { workspace := .empty, target := .java } [] .procedureName "while"
      fun _ => hmain
  refine ⟨identifier, after, hyields, fun h => ?_⟩
  have hplain : Identifier.plain "while" ∉ overlooked .java .procedureName := by decide
  exact hplain (hunusable.1 h).2

/-- A variable of a new script may take the place of the number that is none. -/
theorem new_script_has_variable_NaN :
    (Setting.step (Render.variableIdentifier "NaN")
        (Setting.firstDraft { workspace := .empty, target := .javaScript })).1 = .ok "NaN" ∧
      Unusable .javaScript .variableName "NaN" := by
  refine ⟨by rfl, .inr (.inl ?_)⟩
  decide

end RobotBlocks
