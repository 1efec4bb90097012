import RobotBlocks.Proofs.Render.Pruning
import RobotBlocks.Proofs.Render.UsableNames

/-!
# Names that are fixed from the start

Before anything is rendered a run for a class hands out the identifiers of the robot's devices and
then those of the variables. The table keeps what it has handed out (`Draft.Continues.extends`), so
what a run is asked for later cannot change them: those of the devices depend on the robot alone, and
those of the variables on the robot and on the list of the variables. Devices whose names leave
different usable identifiers get just these. The table lasts until a class hands over what it has
collected (`Setting.ComesTo`).
-/

set_option autoImplicit false

namespace RobotBlocks

open List NameTable
open Identifier (ofName)

namespace NameTable

/-- Hands out identifiers for names, one after the other. -/
def claim (table : NameTable) (names : List (Namespace × String)) : NameTable :=
  names.foldl (fun table name => (table.identifierFor name.1 name.2).2) table

/-- A name that was claimed has an identifier, and later claims leave it alone. -/
theorem claim_spec (names : List (Namespace × String)) (table : NameTable) :
    (table.claim names).Extends table ∧
      ∀ name ∈ names, ∃ identifier, (table.claim names).assigned? name.1 name.2 = some identifier := by
  induction names generalizing table with
  | nil => exact ⟨extends_refl table, by simp⟩
  | cons first rest ih =>
    obtain ⟨hextends, hassigned⟩ := identifierFor_spec table first.1 first.2
    obtain ⟨hlater, hrest⟩ := ih (table.identifierFor first.1 first.2).2
    refine ⟨hlater.trans hextends, fun name hname => ?_⟩
    rcases mem_cons.1 hname with rfl | hname
    · exact ⟨_, hlater _ _ _ hassigned⟩
    · exact hrest name hname

end NameTable

/-- What is asked of a context leaves the identifiers in it alone. -/
theorem Context.extends_after (context : Context) (operations : List Operation) :
    (context.after operations).names.Extends context.names := by
  refine names_after (P := fun table => table.Extends context.names) ?_ ?_ operations
    (extends_refl _)
  · exact fun table space name h => (identifierFor_spec table space name).1.trans h
  · exact fun table base h => h

theorem Draft.Continues.extends {before after : Draft} (h : before.Continues after) :
    after.context.names.Extends before.context.names := by
  obtain ⟨operations, hafter⟩ := h
  rw [hafter]
  exact before.context.extends_after operations

/-! ## The table that a run starts with -/

def Device.key (device : Device) : Namespace × String :=
  (.deviceNames device.kind.className, device.name)

theorem Device.key_injective {device other : Device} (h : device.key = other.key) :
    device = other := by
  obtain ⟨name, kind⟩ := device
  obtain ⟨name', kind'⟩ := other
  simp only [key, Prod.mk.injEq, Namespace.deviceNames.injEq] at h
  obtain ⟨hclass, rfl⟩ := h
  have hkind : kind = kind' := by
    cases kind <;> cases kind' <;> first | rfl | exact absurd hclass (by decide)
  rw [hkind]

def Hardware.nameTable (hardware : Hardware) : NameTable :=
  NameTable.claim {} (hardware.devices.map Device.key)

/-- The devices come first, and then the variables, whatever the rest of the workspace is. -/
theorem Setting.names_firstContext_of_java {setting : Setting} (h : setting.target = .java) :
    setting.firstContext.names = setting.hardware.nameTable.claim
      (setting.workspace.variableNames.map fun name => (.variableNames, name)) := by
  have hnames : ∀ {α : Type} (key : α → Namespace × String) (items : List α) (context : Context),
      (items.foldl (fun context item => (context.identifierFor (key item).1 (key item).2).2)
        context).names = context.names.claim (items.map key) := by
    intro α key items
    induction items with
    | nil => exact fun _ => rfl
    | cons item rest ih => exact fun context => ih _
  unfold firstContext
  rw [h]
  refine (hnames (fun name => (.variableNames, name)) _ _).trans ?_
  exact congrArg (NameTable.claim · _) (hnames Device.key _ _)

variable {draft : Draft}

/-- Until it hands over what it has collected, a run for a class has the identifiers that it started
with. -/
theorem Setting.ComesTo.extends {setting : Setting} (h : setting.ComesTo draft)
    (htarget : setting.target = .java) :
    draft.context.names.Extends (setting.hardware.nameTable.claim
      (setting.workspace.variableNames.map fun name => (.variableNames, name))) := by
  rw [← names_firstContext_of_java htarget]
  exact h.continues.extends

/-! ## Devices that are called like their identifiers -/

/-- The names of the devices leave identifiers that can be used as they are and tell them apart. -/
def Hardware.NamesArePlain (hardware : Hardware) : Prop :=
  (∀ device ∈ hardware.devices, ofName device.name ≠ "" ∧
    Identifier.isReserved (ofName device.name) = false) ∧
  ∀ device ∈ hardware.devices, ∀ other ∈ hardware.devices,
    ofName device.name = ofName other.name → device = other

namespace NameTable

/-- The table has the devices and nothing else, each with what is left of its name. -/
structure HasPlain (table : NameTable) (devices : List Device) : Prop where
  taken : ∀ identifier ∈ table.taken, ∃ device ∈ devices, identifier = ofName device.name
  known : ∀ space name identifier, table.assigned? space name = some identifier →
    ∃ device ∈ devices, (space, name) = device.key
  plain : ∀ device ∈ devices,
    table.assigned? device.key.1 device.key.2 = some (ofName device.name)

theorem hasPlain_empty : HasPlain {} [] where
  taken := by simp
  known := by simp [assigned?]
  plain := by simp

/-- One more device gets what is left of its name, unless it has it already. -/
theorem HasPlain.step {table : NameTable} {devices : List Device} (h : table.HasPlain devices)
    {device : Device} (hempty : ofName device.name ≠ "")
    (hreserved : Identifier.isReserved (ofName device.name) = false)
    (hapart : ∀ other ∈ devices, ofName device.name = ofName other.name → device = other) :
    (table.identifierFor device.key.1 device.key.2).2.HasPlain (devices ++ [device]) := by
  have hmem : ∀ {other : Device}, other ∈ devices → other ∈ devices ++ [device] :=
    mem_append_left _
  have hself : device ∈ devices ++ [device] := by simp
  have hplain : Identifier.plain device.key.2 = ofName device.name :=
    if_neg (by simpa [Device.key, String.isEmpty_iff] using hempty)
  have htaken := fun found hfound => (h.taken found hfound).imp fun _ => And.imp_left hmem
  have hknown := fun space name found hfound =>
    (h.known space name found hfound).imp fun _ => And.imp_left hmem
  rcases identifierFor_cases table device.key.1 device.key.2 with
    ⟨identifier, hassigned, heq⟩ | ⟨identifier, hnone, -, heq⟩
  · rw [heq]
    obtain ⟨other, hother, hkey⟩ := h.known _ _ _ hassigned
    obtain rfl := Device.key_injective hkey
    refine ⟨htaken, hknown, fun other hother => ?_⟩
    rcases mem_append.1 hother with hother | hother
    · exact h.plain other hother
    · exact mem_singleton.1 hother ▸ h.plain _ ‹_›
  · have hnew : device ∉ devices := by
      intro hdevice
      rw [h.plain device hdevice] at hnone
      cases hnone
    have hfree : table.busy (ofName device.name) = false := by
      refine (busy_eq_false_iff table _).2 ⟨hreserved, fun htaken => ?_⟩
      obtain ⟨other, hother, hname⟩ := h.taken _ htaken
      exact hnew (hapart other hother hname ▸ hother)
    obtain rfl : identifier = ofName device.name := by
      have := identifierFor_eq_plain hnone (hplain.symm ▸ hfree)
      rwa [heq, hplain] at this
    rw [heq]
    refine ⟨fun found hfound => ?_, fun space name found hfound => ?_, fun other hother => ?_⟩
    · rcases mem_cons.1 hfound with rfl | hfound
      · exact ⟨device, hself, rfl⟩
      · exact htaken found hfound
    · rw [assigned?_cons] at hfound
      split at hfound
      · next hkey => exact ⟨device, hself, hkey.symm⟩
      · exact hknown space name found hfound
    · rw [assigned?_cons]
      rcases mem_append.1 hother with hother | hother
      · have hne : device.key ≠ other.key := fun hkey => hnew (Device.key_injective hkey ▸ hother)
        rw [if_neg hne]
        exact h.plain other hother
      · obtain rfl := mem_singleton.1 hother
        exact if_pos rfl

end NameTable

/-- If all names are plain, the devices of the robot have them. -/
theorem Hardware.NamesArePlain.hasPlain {hardware : Hardware} (h : hardware.NamesArePlain) :
    hardware.nameTable.HasPlain hardware.devices := by
  -- The devices before those that are still to come are all in the table.
  have hclaim : ∀ (later earlier : List Device) (table : NameTable), table.HasPlain earlier →
      hardware.devices = earlier ++ later →
        (table.claim (later.map Device.key)).HasPlain hardware.devices := by
    intro later
    induction later with
    | nil =>
      intro earlier table htable hsplit
      rw [hsplit, append_nil]
      exact htable
    | cons device rest ih =>
      intro earlier table htable hsplit
      have hdevice : device ∈ hardware.devices := by simp [hsplit]
      obtain ⟨hempty, hreserved⟩ := h.1 device hdevice
      refine ih (earlier ++ [device]) _ (htable.step hempty hreserved fun other hother => ?_) ?_
      · exact h.2 device hdevice other (by simp [hsplit, hother])
      · rw [hsplit, append_assoc, singleton_append]
  exact hclaim hardware.devices [] {} hasPlain_empty rfl

/-! ## Asking for the identifiers -/

namespace Render

/-- A step ends well with an answer. -/
def Gives {α : Type} (action : Render α) (draft : Draft) (answer : α) : Prop :=
  ∃ after, Yields action draft answer after

variable {identifier : String}

theorem gives_identifierFor {space : Namespace} {name : String}
    (h : draft.context.names.assigned? space name = some identifier) :
    Gives (identifierFor space name) draft identifier := by
  have hmemorised : draft.context.names.identifierFor space name =
      (identifier, draft.context.names) := by
    unfold NameTable.identifierFor
    rw [h]
  have hasked : draft.context.identifierFor space name = (identifier, draft.context) := by
    unfold Context.identifierFor
    rw [hmemorised]
  refine ⟨draft, yields_modifyGet.2 ?_⟩
  simp only [hasked]

/-- A device is declared under the identifier that it has. -/
theorem gives_declareResolved {device : ResolvedDevice}
    (h : draft.context.names.assigned? (.deviceNames device.kind.className) device.name =
      some identifier) : Gives (declareResolved device) draft identifier := by
  obtain ⟨className, hclass⟩ : ∃ className,
      knownClass? device.kind.className = some className := by
    cases device.kind <;> exact ⟨_, rfl⟩
  obtain ⟨middle, hidentifier⟩ := gives_identifierFor h
  have hdeclared : ∀ key text, Sure (declare key text) :=
    fun key text => (sure_withContext _).bind fun _ => .pure _
  have hrest : Sure (do
      importClassType className
      declare (.field identifier)
        ("private " ++ device.kind.className ++ " " ++ identifier ++ ";")
      declare (.assignment identifier)
        (identifier ++ " = hardwareMap.get(" ++ device.kind.className ++ ".class, " ++
          Text.quote '"' device.name ++ ");")) := by
    apply Sure.bind
    · exact (sure_withContext _).bind sure_recordImport
    · exact fun _ => (hdeclared _ _).bind fun _ => hdeclared _ _
  obtain ⟨_, after, hafter⟩ := hrest middle
  refine ⟨after, ?_⟩
  unfold declareResolved declareDevice
  dsimp only
  rw [hclass]
  simp only [yields_bind, yields_pure] at hafter ⊢
  obtain ⟨_, first, himport, _, second, hfield, hassignment⟩ := hafter
  exact ⟨identifier, middle, hidentifier, _, first, himport, _, second, hfield, _, after, hassignment,
    rfl, rfl⟩

end Render

/-- Whatever two runs for classes on one robot are asked for, and wherever they are until they hand over
what they have collected, a device of the robot gets the same identifier from both; and so does a
variable if both workspaces have the same list of variables. If the names of the devices leave
identifiers that can be used and are told apart, a device gets what is left of its name. -/
theorem identifiers_depend_on_robot_and_variables {setting setting' : Setting} {draft draft' : Draft}
    (htarget : setting.target = .java) (htarget' : setting'.target = .java)
    (hhardware : setting'.hardware = setting.hardware) (hdraft : setting.ComesTo draft)
    (hdraft' : setting'.ComesTo draft') :
    (∀ device ∈ setting.hardware.devices, ∃ identifier,
      (setting.hardware.NamesArePlain → identifier = ofName device.name) ∧
      ∀ configured,
        let resolved : ResolvedDevice := { name := device.name, kind := device.kind, configured }
        Render.Gives (Render.declareResolved resolved) draft identifier ∧
        Render.Gives (Render.declareResolved resolved) draft' identifier) ∧
    (setting'.workspace.variableNames = setting.workspace.variableNames →
      ∀ name ∈ setting.workspace.variableNames, ∃ identifier,
        Render.Gives (Render.variableIdentifier name) draft identifier ∧
        Render.Gives (Render.variableIdentifier name) draft' identifier) := by
  have hkept := hdraft.extends htarget
  have hkept' := hdraft'.extends htarget'
  rw [hhardware] at hkept'
  constructor
  · intro device hdevice
    obtain ⟨identifier, hidentifier⟩ := (claim_spec _ {}).2 device.key (mem_map_of_mem hdevice)
    have hlater : ∀ names, (setting.hardware.nameTable.claim names).assigned?
        device.key.1 device.key.2 = some identifier :=
      fun names => (claim_spec names _).1 _ _ _ hidentifier
    refine ⟨identifier, fun hplain => ?_, fun configured => ⟨?_, ?_⟩⟩
    · have hassigned := hplain.hasPlain.plain device hdevice
      exact Option.some.inj (hidentifier.symm.trans hassigned)
    · exact Render.gives_declareResolved (hkept _ _ _ (hlater _))
    · exact Render.gives_declareResolved (hkept' _ _ _ (hlater _))
  · intro hvariables name hname
    rw [hvariables] at hkept'
    obtain ⟨identifier, hidentifier⟩ := (claim_spec
      (setting.workspace.variableNames.map fun name => (.variableNames, name))
      setting.hardware.nameTable).2 (.variableNames, name) (mem_map_of_mem hname)
    refine ⟨identifier, ?_, ?_⟩
    · exact Render.gives_identifierFor (hkept _ _ _ hidentifier)
    · exact Render.gives_identifierFor (hkept' _ _ _ hidentifier)

/-- A procedure that is called like what is left of a device's name does not take its identifier. -/
theorem left_arm_keeps_its_identifier :
    let robot : Hardware := { devices := [⟨"left arm", .dcMotor⟩, ⟨"claw", .servo⟩] }
    let workspace := Workspace.empty.declareVariable "claw"
    let first : Setting := { workspace, hardware := robot, target := .java }
    let second : Setting :=
      { workspace, hardware := robot, target := .java, options := { package := "robots" } }
    let requests : List Request := [.operation (.identifierFor .procedureNames "leftarm"), .types]
    robot.NamesArePlain ∧
      Render.Gives (Render.declareResolved ⟨"left arm", .dcMotor, true⟩)
        (first.draftAfter requests) "leftarm" ∧
      Render.Gives (Render.declareResolved ⟨"left arm", .dcMotor, true⟩)
        (second.draftAfter []) "leftarm" ∧
      ∃ identifier,
        Render.Gives (Render.variableIdentifier "claw") (first.draftAfter requests) identifier ∧
        Render.Gives (Render.variableIdentifier "claw") (second.draftAfter []) identifier := by
  intro robot workspace first second requests
  have hplain : robot.NamesArePlain := by
    unfold Hardware.NamesArePlain
    decide
  have hfirst : first.ComesTo (first.draftAfter requests) := by
    refine ⟨requests, ⟨?_, ?_, trivial⟩, .inl rfl⟩ <;> rintro ⟨-, _, _, _, ⟨⟩, -⟩
  have hsecond : second.ComesTo (second.draftAfter []) := ⟨[], trivial, .inl rfl⟩
  obtain ⟨hdevices, hvariables⟩ :=
    @identifiers_depend_on_robot_and_variables first second _ _ rfl rfl rfl hfirst hsecond
  obtain ⟨identifier, hidentifier, hgives⟩ := hdevices ⟨"left arm", .dcMotor⟩ (by simp [first, robot])
  have hleft : identifier = "leftarm" := by
    rw [hidentifier hplain]
    decide
  rw [hleft] at hgives
  exact ⟨hplain, (hgives true).1, (hgives true).2, hvariables rfl "claw" (by decide)⟩

end RobotBlocks
