import RobotBlocks.Identifier

/-!
# Devices

A robot has devices of three kinds, each with a name of its own. A script calls a device by its
script identifier: what an identifier can keep of its name, then the suffix of its kind. Resolving an
identifier goes back from there to the device.
-/

set_option autoImplicit false

namespace RobotBlocks

inductive DeviceKind where
  | dcMotor
  | servo
  | touchSensor
  deriving DecidableEq, Repr

namespace DeviceKind

def className : DeviceKind → String
  | dcMotor => "DcMotor"
  | servo => "Servo"
  | touchSensor => "TouchSensor"

def ofClassName? : String → Option DeviceKind
  | "DcMotor" => some dcMotor
  | "Servo" => some servo
  | "TouchSensor" => some touchSensor
  | _ => none

/-- What ends the script identifiers of a kind. -/
def suffix (kind : DeviceKind) : String := "As" ++ kind.className

end DeviceKind

structure Device where
  name : String
  kind : DeviceKind
  deriving DecidableEq, Repr

def Device.scriptIdentifier (device : Device) : String :=
  Identifier.ofName device.name ++ device.kind.suffix

/-- The device that an identifier stands for. -/
structure ResolvedDevice where
  name : String
  kind : DeviceKind
  configured : Bool
  deriving DecidableEq, Repr

structure Hardware where
  devices : List Device := []
  deriving DecidableEq, Repr

namespace Hardware

def contains (hardware : Hardware) (name : String) (kind : DeviceKind) : Bool :=
  hardware.devices.any (fun device => device.kind = kind && device.name = name)

def dropSuffix (text suffix : String) : String :=
  if suffix.toList.isSuffixOf text.toList then
    String.ofList (text.toList.take (text.toList.length - suffix.toList.length))
  else text

/-- The device that a script identifier stands for: the first of its kind that has the identifier, or
else the one that is called as the identifier is without its suffix. -/
def resolve (hardware : Hardware) (identifier : String) (kind : DeviceKind) : ResolvedDevice :=
  match hardware.devices.find?
      (fun device => device.kind = kind && device.scriptIdentifier = identifier) with
  | some device => { name := device.name, kind, configured := true }
  | none =>
    let name := dropSuffix identifier kind.suffix
    { name, kind, configured := hardware.contains name kind }

end Hardware

end RobotBlocks
