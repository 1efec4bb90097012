import RobotBlocks.Device
import RobotBlocks.Json

/-!
# Robot configurations

A configuration is a JSON object with an array `devices`. Every entry has a `name` and a `kind`; the
first entry that lacks one, or whose kind is unknown, is the fault of the configuration.
-/

set_option autoImplicit false

namespace RobotBlocks.Hardware

/-- Why a text is no configuration. -/
inductive Fault where
  | malformed
  | noDevices
  | noName (index : Nat)
  | noKind (name : String)
  | unknownKind (name kind : String)
  deriving DecidableEq, Repr

/-- The wording of a configuration fault; a malformed document has none of its own. -/
def Fault.message? : Fault → Option String
  | .malformed => none
  | .noDevices => some "Hardware configuration missing 'devices' array."
  | .noName index => some ("Device " ++ toString index ++ " missing 'name'.")
  | .noKind name => some ("Device '" ++ name ++ "' missing 'kind'.")
  | .unknownKind name kind => some ("Device '" ++ name ++ "' has unknown kind '" ++ kind ++ "'.")

def readDevice (index : Nat) (entry : Json) : Except Fault Device :=
  match (entry.get? "name").bind Json.text? with
  | none => .error (.noName index)
  | some name =>
    match (entry.get? "kind").bind Json.text? with
    | none => .error (.noKind name)
    | some kindName =>
      match DeviceKind.ofClassName? kindName with
      | none => .error (.unknownKind name kindName)
      | some kind => .ok { name, kind }

def readDevices (index : Nat) : List Json → Except Fault (List Device)
  | [] => .ok []
  | entry :: rest => do
    let device ← readDevice index entry
    let devices ← readDevices (index + 1) rest
    return device :: devices

def read (text : String) : Except Fault Hardware :=
  match Json.read? text with
  | none => .error .malformed
  | some root =>
    match (root.get? "devices").bind Json.items? with
    | none => .error .noDevices
    | some entries => (readDevices 0 entries).map Hardware.mk

end RobotBlocks.Hardware
