import RobotBlocks.Proofs.Render.RenderedBlocks

/-!
# The fields of a class

A class has a private field, and an assignment in its main method, for every device that one of its
blocks is about: one for each device, in the order in which the devices are used first. After the fields
of the devices come those of the variables, and no two fields have the same name.

Declarations are kept by identifier, and a block knows its device by class and name. Both are the same
since different names have different identifiers at the end of the run (`Context.Recorded`), so the
first declarations by identifier are the first uses of devices (`firsts_map`).
-/

set_option autoImplicit false

namespace RobotBlocks

open List Context

/-! ## First occurrences -/

section

variable {κ α : Type} [DecidableEq κ]

theorem filter_firsts (wanted : κ → Bool) (entries : List (κ × α)) :
    (firsts entries).filter (fun entry => wanted entry.1) =
      firsts (entries.filter (fun entry => wanted entry.1)) := by
  induction entries with
  | nil => rfl
  | cons entry rest ih =>
    rw [firsts, filter_cons, filter_cons, filter_filter]
    cases hwanted : wanted entry.1 with
    | true =>
      rw [if_pos rfl, if_pos rfl, firsts, ← ih, filter_filter]
      congr 2
      funext later
      exact Bool.and_comm _ _
    | false =>
      rw [if_neg (by simp), if_neg (by simp), ← ih]
      refine filter_congr fun later _ => ?_
      by_cases hlater : later.1 = entry.1
      · simp [hlater, hwanted]
      · simp [hlater]

/-- The first entries of a list whose elements have keys of their own are its first elements. -/
theorem firsts_map [DecidableEq α] {β : Type} (key : α → κ) (text : α → β) (items : List α)
    (h : ∀ a ∈ items, ∀ b ∈ items, key a = key b → a = b) :
    firsts (items.map fun a => (key a, text a)) = items.eraseDups.map fun a => (key a, text a) := by
  induction hlength : items.length using Nat.strongRecOn generalizing items with
  | _ length ih =>
    cases items with
    | nil => rfl
    | cons item rest =>
      have hshorter := length_filter_le (fun other => !other == item) rest
      have hothers : (rest.map fun a => (key a, text a)).filter (fun later => later.1 ≠ key item) =
          (rest.filter (fun other => !other == item)).map fun a => (key a, text a) := by
        rw [filter_map]
        congr 1
        refine filter_congr fun other hother => ?_
        have hsame : key other = key item ↔ other = item := by
          refine ⟨h other (mem_cons_of_mem _ hother) item mem_cons_self, ?_⟩
          rintro rfl
          rfl
        by_cases hitem : other = item
        · simp [hitem]
        · simp [hitem, hsame]
      rw [map_cons, firsts, eraseDups_cons, map_cons]
      congr 1
      have hfilter := @filter_firsts κ β _ (fun found => found ≠ key item)
        (rest.map fun a => (key a, text a))
      refine hfilter.trans ?_
      rw [hothers]
      refine ih _ ?_ _ (fun a ha b hb => ?_) rfl
      · rw [← hlength, length_cons]
        omega
      · exact h a (mem_cons_of_mem _ (mem_of_mem_filter ha)) b
          (mem_cons_of_mem _ (mem_of_mem_filter hb))

end

/-! ## What is declared -/

section

variable {setting : Setting} {draft : Draft} {uses : List DeviceUse}

section

variable (h : Draft.Uses uses setting.firstDraft draft)

include h

/-- At the end of a run, different names have different identifiers. -/
theorem Draft.Uses.injective {space space' : Namespace} {name name' identifier : String}
    (hname : draft.context.names.assigned? space name = some identifier)
    (hname' : draft.context.names.assigned? space' name' = some identifier) :
    (space, name) = (space', name') := by
  obtain ⟨operations, hgathered⟩ := setting.gathered_of_continues h.continues
  rw [hgathered] at hname hname'
  exact (recorded_run_empty setting.ownPackage operations).assigned_injective _ _ _ _ _ hname hname'

theorem Draft.Uses.assigned {use : DeviceUse} (huse : use ∈ uses) :
    draft.context.names.assigned? (.deviceNames use.className) use.device =
      some (use.identifier draft.context.names) := by
  obtain ⟨-, -, hassigned, -⟩ := h
  obtain ⟨identifier, hidentifier⟩ := hassigned use huse
  rw [DeviceUse.identifier, hidentifier, Option.getD_some]

/-- Devices with the same identifier are the same. -/
theorem Draft.Uses.eq_of_identifier_eq {use use' : DeviceUse} (huse : use ∈ uses)
    (huse' : use' ∈ uses)
    (hsame : use.identifier draft.context.names = use'.identifier draft.context.names) :
    use = use' := by
  have hkeys := h.injective (h.assigned huse) (hsame ▸ h.assigned huse')
  obtain ⟨className, device⟩ := use
  obtain ⟨className', device'⟩ := use'
  obtain ⟨hspace, rfl⟩ := Prod.mk.inj hkeys
  cases hspace
  rfl

/-- The declarations of a kind are those of the devices that were used, each once and in the order of
their first use. -/
theorem Draft.Uses.declared {kind : DeclarationKey → Option String}
    {text : DeviceUse → String → String}
    (hinjective : ∀ a b name, kind a = some name → kind b = some name → a = b)
    (htext : ∀ table use, (DeviceUse.declarations table use).filterMap
      (fun entry => (kind entry.1).map (·, entry.2)) =
        [(use.identifier table, text use (use.identifier table))]) :
    draft.context.declarations.filterMap (fun entry => (kind entry.1).map fun _ => entry.2) =
      uses.eraseDups.map fun use => text use (use.identifier draft.context.names) := by
  have hkeys : ∀ use ∈ uses, ∀ use' ∈ uses, use.identifier draft.context.names =
      use'.identifier draft.context.names → use = use' :=
    fun use huse use' huse' => h.eq_of_identifier_eq huse huse'
  obtain ⟨front, hfront, hquiet⟩ := setting.exists_firstContext_eq
  obtain ⟨back, hback, -, hdeclared⟩ := h
  have hcollects : Context.Collects setting.ownPackage (front ++ back) draft.context := by
    rw [hback, show setting.firstDraft.context = setting.firstContext from rfl, hfront]
    exact (collects_gathered setting.ownPackage front).after back
  have hentries : (front ++ back).filterMap (Context.Operation.declared? kind) =
      uses.map fun use => (use.identifier draft.context.names,
        text use (use.identifier draft.context.names)) := by
    have hall : (front ++ back).filterMap Context.Operation.declaration? =
        uses.flatMap (DeviceUse.declarations draft.context.names) := by
      rw [filterMap_append, hquiet, nil_append, hdeclared _ fun _ _ _ hname => hname]
    calc (front ++ back).filterMap (Context.Operation.declared? kind)
        = ((front ++ back).filterMap Context.Operation.declaration?).filterMap
            (fun entry => (kind entry.1).map (·, entry.2)) := filterMap_filterMap.symm
      _ = _ := by
        rw [hall, filterMap_flatMap]
        simp only [htext]
        exact map_eq_flatMap.symm
  rw [hcollects.filterMap_declarations hinjective, hentries,
    firsts_map _ (fun use => text use (use.identifier draft.context.names)) uses hkeys, map_map]
  rfl

end

end

/-! ## Programs that were loaded -/

/-- The variables of a program that was loaded are told apart. -/
theorem nodup_variableNames_of_loaded {root : Xml.Element} {document : Option String}
    {program : Program} {loading : Loading}
    (h : Yields (Program.ofRoot root document) {} program loading) :
    program.workspace.variableNames.Nodup := by
  obtain ⟨-, hload, -⟩ := yields_ofRoot.1 h
  obtain ⟨m, helements, hworkspace, -, -⟩ := Loader.yields_loadWorkspace.1 hload
  obtain ⟨forest, -, -, hnames, -⟩ := Loader.yields_forM_loadElement helements
  rw [← hworkspace, hnames]
  have hfirsts := declareAll_nil (root.children.flatMap Xml.Element.variablesIn)
  exact hfirsts ▸ nodup_eraseDups _

/-! ## Main statement -/

/-- A class whose rendering ends well declares every device that one of its blocks is about, once, where
it is used first, and assigns it under the same identifier; it declares no other devices. After them it
declares its variables, and all these identifiers differ. They are those of the draft from which the class
hands over what it has collected; nothing is left of them behind it. -/
theorem class_declares_devices_and_variables :
    (∀ root document program loading, Yields (Program.ofRoot root document) {} program loading →
      program.workspace.Shaped ∧ program.workspace.variableNames.Nodup) ∧
    ∀ (setting : Setting) (registration : Registration) (text : String) (last : Draft),
      setting.target = .java → setting.workspace.Shaped → setting.workspace.variableNames.Nodup →
      Yields (setting.program registration) setting.firstDraft text last →
      ∃ rendered full, setting.Completes registration setting.firstDraft rendered full ∧
        last = full.flushed ∧
        let uses := (setting.hardware.usesOf setting.workspace.classBlocks).eraseDups
        let table := full.context.names
        full.context.collected.fields = uses.map (fun use => use.field (use.identifier table)) ∧
        full.context.collected.assignments =
          uses.map (fun use => use.assignment (use.identifier table)) ∧
        (∃ parts, text = Compiled.assemble setting.options parts ∧
          parts.fields = full.context.collected.fields ++
            setting.workspace.variableNames.map (Compiled.fieldOf full.types table) ∧
          parts.assignments = full.context.collected.assignments) ∧
        (uses.map (DeviceUse.identifier table) ++
          setting.workspace.variableNames.map table.variable).Nodup := by
  refine ⟨fun root document program loading h => ⟨(shaped_and_valid_of_loaded h).1,
    nodup_variableNames_of_loaded h⟩, ?_⟩
  intro setting registration text last hjava hshaped hvariables h
  obtain ⟨rendered, full, hcompletes, htext, hlast⟩ := Setting.exists_completes hjava h
  obtain ⟨stages⟩ := Compiled.nonempty_stages hcompletes
  have huses := stages.uses hjava hshaped
  obtain ⟨-, hassigned, hfields⟩ := Compiled.variableFields_eq stages.yields_variables
  refine ⟨rendered, full, hcompletes, hlast, ?_, ?_, ⟨_, htext, ?_, rfl⟩, ?_⟩
  · rw [Context.collected, fieldText?_eq]
    exact huses.declared field?_injective fun _ _ => rfl
  · rw [Context.collected, assignmentText?_eq]
    exact huses.declared assignment?_injective fun _ _ => rfl
  · rw [← hfields _ fun _ _ _ hname => hname]
    rfl
  · rw [nodup_append]
    refine ⟨(nodup_eraseDups _).map_on fun use huse use' huse' hsame => ?_,
      hvariables.map_on fun name hname name' hname' hsame => ?_, ?_⟩
    · exact huses.eq_of_identifier_eq (mem_eraseDups.1 huse) (mem_eraseDups.1 huse') hsame
    · exact (Prod.mk.inj (huses.injective (hassigned name hname) (hsame ▸ hassigned name' hname'))).2
    · rintro _ huse _ hname rfl
      obtain ⟨use, hused, hidentifier⟩ := mem_map.1 huse
      obtain ⟨name, hdeclared, rfl⟩ := mem_map.1 hname
      have hdevice := huses.assigned (mem_eraseDups.1 hused)
      rw [hidentifier] at hdevice
      cases huses.injective hdevice (hassigned name hdeclared)

/-! ## A motor, a servo and a variable of one name -/

namespace LiftSample

def main : Block :=
  Block.applyMutation
    { id := "a", typeName := "procedures_defnoreturn", kind := .procedureDef false
      fields := Dict.ofList [("NAME", "runOpMode")], statements := Dict.ofList [("STACK", "b")] }

/-- A property of a device gets a value. -/
def assignment (kind : DeviceKind) (id property : String) (parent : Link) (next : Option String) :
    Block :=
  Block.applyMutation
    { id, typeName := "setProperty", kind := .deviceSet kind
      fields := Dict.ofList [("IDENTIFIER", "lift" ++ kind.suffix), ("PROP", property)]
      parent := some parent, next }

def workspace : Workspace where
  blocks :=
    [main, assignment .dcMotor "b" "Power" (.statement "a" "STACK") (some "c"),
      assignment .servo "c" "Position" (.next "b") (some "d"),
      assignment .dcMotor "d" "Power" (.next "c") none]
  variableNames := ["lift"]
  distinct := by decide

def setting : Setting where
  workspace
  hardware := { devices := [⟨"spare", .dcMotor⟩, ⟨"lift", .dcMotor⟩, ⟨"lift", .servo⟩] }
  target := .java

theorem roots_eq : setting.workspace.roots = [main] := by
  show List.mergeSort _ _ = _
  rw [mergeSort_of_pairwise (by decide)]
  rfl

theorem byId_eq : setting.workspace.byId = workspace.blocks :=
  mergeSort_of_pairwise (by decide)

theorem rendered : (Setting.step (setting.program {}) setting.firstDraft).1.toOption.isSome = true := by
  unfold Setting.program Render.inferTypes Inference.inferAll Compiled.program Compiled.collect
    Compiled.renderParts
  rw [setting.setting_renderer, roots_eq, byId_eq]
  decide +kernel

theorem shaped : setting.workspace.Shaped := by
  intro block hblock
  simp only [setting, workspace, mem_cons, not_mem_nil, or_false] at hblock
  rcases hblock with rfl | rfl | rfl | rfl <;> exact ⟨rfl, fun _ => rfl⟩

/-- The motor is used twice and the servo once, and the third motor not at all. -/
theorem uses_eq : (setting.hardware.usesOf setting.workspace.classBlocks).eraseDups =
    [⟨"DcMotor", "lift"⟩, ⟨"Servo", "lift"⟩] := by
  unfold Workspace.classBlocks
  rw [roots_eq]
  decide

/-- The class has two fields for devices, and their identifiers differ from that of the variable. -/
theorem lift_is_declared_twice :
    ∃ (text : String) (full : Draft), Yields (setting.program {}) setting.firstDraft text full.flushed ∧
      full.context.collected.fields =
        [DeviceUse.field ⟨"DcMotor", "lift"⟩ (DeviceUse.identifier full.context.names ⟨"DcMotor", "lift"⟩),
          DeviceUse.field ⟨"Servo", "lift"⟩ (DeviceUse.identifier full.context.names ⟨"Servo", "lift"⟩)] ∧
      [DeviceUse.identifier full.context.names ⟨"DcMotor", "lift"⟩,
        DeviceUse.identifier full.context.names ⟨"Servo", "lift"⟩,
        full.context.names.variable "lift"].Nodup := by
  obtain ⟨text, hyields⟩ := exists_yields rendered
  obtain ⟨_, full, -, hlast, hfields, -, -, hdistinct⟩ :=
    class_declares_devices_and_variables.2 setting {} text _ rfl shaped (by decide) hyields
  rw [uses_eq] at hfields hdistinct
  exact ⟨text, full, hlast ▸ hyields, hfields, hdistinct⟩

end LiftSample

end RobotBlocks
