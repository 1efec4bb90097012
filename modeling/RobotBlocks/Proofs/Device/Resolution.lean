import RobotBlocks.Device

/-!
# Devices and their identifiers

Of the devices that share an identifier, resolving it finds the first. An identifier of no device is
taken for a name with or without its suffix, and a device can have that name all the same. Whichever way
an identifier goes, it is called configured exactly if the robot has the device.
-/

set_option autoImplicit false

namespace RobotBlocks

open List

/-- Devices of one kind whose names leave the same in an identifier. -/
def Device.Alike (device other : Device) : Prop :=
  device.kind = other.kind ∧ Identifier.ofName device.name = Identifier.ofName other.name

namespace Hardware

/-- A device has a place in the list behind devices that are not alike. -/
def IsFirst (hardware : Hardware) (device first : Device) : Prop :=
  ∃ before after, hardware.devices = before ++ first :: after ∧ first.Alike device ∧
    ∀ earlier ∈ before, ¬ earlier.Alike device

variable {hardware : Hardware} {device first : Device} {identifier : String} {kind : DeviceKind}

theorem has_identifier_iff (other : Device) :
    (decide (other.kind = device.kind) && decide (other.scriptIdentifier = device.scriptIdentifier)) =
      true ↔ other.Alike device := by
  rw [Bool.and_eq_true, decide_eq_true_eq, decide_eq_true_eq]
  refine and_congr_right fun hkind => ?_
  unfold Device.scriptIdentifier
  rw [hkind, ← String.toList_inj, String.toList_append, String.toList_append, append_left_inj,
    String.toList_inj]

theorem find?_eq_some_iff_isFirst :
    hardware.devices.find? (fun other => other.kind = device.kind &&
        other.scriptIdentifier = device.scriptIdentifier) = some first ↔
      hardware.IsFirst device first := by
  simp only [find?_eq_some_iff_append, has_identifier_iff, Bool.not_eq_true', Bool.eq_false_iff,
    ne_eq, IsFirst]
  constructor
  · rintro ⟨halike, before, after, hdevices, hearlier⟩
    exact ⟨before, after, hdevices, halike, hearlier⟩
  · rintro ⟨before, after, hdevices, halike, hearlier⟩
    exact ⟨halike, before, after, hdevices, hearlier⟩

theorem exists_isFirst (h : device ∈ hardware.devices) : ∃ first, hardware.IsFirst device first := by
  simp only [← find?_eq_some_iff_isFirst, ← Option.isSome_iff_exists, find?_isSome]
  exact ⟨device, h, (has_identifier_iff device).2 ⟨rfl, rfl⟩⟩

theorem IsFirst.resolve_eq (h : hardware.IsFirst device first) :
    hardware.resolve device.scriptIdentifier device.kind =
      { name := first.name, kind := device.kind, configured := true } := by
  rw [resolve, find?_eq_some_iff_isFirst.2 h]

/-- Whether a suffix was dropped or not, the text is known from what is left. -/
theorem eq_or_eq_dropSuffix_append (text suffix : String) :
    text = dropSuffix text suffix ∨ text = dropSuffix text suffix ++ suffix := by
  unfold dropSuffix
  split
  · next hsuffix =>
    right
    obtain ⟨front, hfront⟩ := isSuffixOf_iff_suffix.1 hsuffix
    refine String.toList_inj.1 ?_
    simp [← hfront]
  · exact .inl rfl

theorem configured_resolve_iff (hardware : Hardware) (identifier : String) (kind : DeviceKind) :
    (hardware.resolve identifier kind).configured = true ↔
      hardware.contains (hardware.resolve identifier kind).name kind = true := by
  unfold resolve
  split
  · next device hfound =>
    have hhas := find?_some hfound
    rw [Bool.and_eq_true, decide_eq_true_eq] at hhas
    refine iff_of_true rfl (any_eq_true.2 ⟨device, mem_of_find?_eq_some hfound, ?_⟩)
    simp [hhas.1]
  · exact Iff.rfl

theorem eq_name_of_not_configured (h : (hardware.resolve identifier kind).configured = false) :
    identifier = (hardware.resolve identifier kind).name ∨
      identifier = (hardware.resolve identifier kind).name ++ kind.suffix := by
  unfold resolve at h ⊢
  split at h
  · cases h
  · exact eq_or_eq_dropSuffix_append identifier kind.suffix

/-- The identifier of a device goes back to the first device of its kind that is called alike, which is
the device itself if none before it is. Any identifier is called configured exactly if the robot has the
device that it stands for, and otherwise that device is called as the identifier is, with or without the
suffix of the kind. -/
theorem resolution_inverts_identifiers (hardware : Hardware) :
    (∀ device ∈ hardware.devices, ∃ first, hardware.IsFirst device first ∧
      hardware.resolve device.scriptIdentifier device.kind =
        { name := first.name, kind := device.kind, configured := true }) ∧
    (∀ before device after, hardware.devices = before ++ device :: after →
      (∀ earlier ∈ before, ¬ earlier.Alike device) →
      hardware.resolve device.scriptIdentifier device.kind =
        { name := device.name, kind := device.kind, configured := true }) ∧
    ∀ identifier kind,
      ((hardware.resolve identifier kind).configured = true ↔
        hardware.contains (hardware.resolve identifier kind).name kind = true) ∧
      ((hardware.resolve identifier kind).configured = false →
        identifier = (hardware.resolve identifier kind).name ∨
          identifier = (hardware.resolve identifier kind).name ++ kind.suffix) := by
  refine ⟨fun device hdevice => ?_, fun before device after hdevices hearlier => ?_,
    fun identifier kind => ⟨configured_resolve_iff hardware identifier kind, eq_name_of_not_configured⟩⟩
  · obtain ⟨first, hfirst⟩ := exists_isFirst hdevice
    exact ⟨first, hfirst, hfirst.resolve_eq⟩
  · have hfirst : hardware.IsFirst device device := ⟨before, after, hdevices, ⟨rfl, rfl⟩, hearlier⟩
    exact hfirst.resolve_eq

/-- Two motors that are called alike, and a servo. -/
def armHardware : Hardware where
  devices := [⟨"arm 1", .dcMotor⟩, ⟨"arm1", .servo⟩, ⟨"arm-1", .dcMotor⟩]

/-- The second motor goes by the name of the first, the servo by its own. -/
theorem arm_is_resolved :
    (∃ first, armHardware.IsFirst ⟨"arm-1", .dcMotor⟩ first ∧
      armHardware.resolve "arm1AsDcMotor" .dcMotor =
        { name := first.name, kind := .dcMotor, configured := true }) ∧
      armHardware.resolve "arm1AsServo" .servo =
        { name := "arm1", kind := .servo, configured := true } ∧
      "liftAsServo" = (armHardware.resolve "liftAsServo" .servo).name ++ "AsServo" := by
  obtain ⟨hinverse, hself, hconfigured⟩ := resolution_inverts_identifiers armHardware
  refine ⟨hinverse ⟨"arm-1", .dcMotor⟩ (by simp [armHardware]), ?_, ?_⟩
  · refine hself [⟨"arm 1", .dcMotor⟩] ⟨"arm1", .servo⟩ [⟨"arm-1", .dcMotor⟩] rfl ?_
    simp [Device.Alike]
  · exact ((hconfigured "liftAsServo" .servo).2 (by decide)).resolve_left (by decide)

end Hardware

end RobotBlocks
