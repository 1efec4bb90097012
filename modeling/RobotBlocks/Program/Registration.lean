import RobotBlocks.Fault
import RobotBlocks.Xml.Element

/-!
# Registration data

After its blocks a saved program may say how the robot lists it: as driver-controlled or autonomous,
in which group, what to select next, and whether it is listed at all.
-/

set_option autoImplicit false

namespace RobotBlocks

open RobotBlocks.Xml (Element)

inductive Flavor where
  | teleOp
  | autonomous
  deriving DecidableEq, Repr

structure Registration where
  flavor : Flavor := .teleOp
  group : String := ""
  /-- The program to select after this one. -/
  autoTransition : String := ""
  enabled : Bool := true
  deriving DecidableEq, Repr

namespace Registration

def flavorOf : String → Except Fault Flavor
  | "TELEOP" => .ok .teleOp
  | "AUTONOMOUS" => .ok .autonomous
  | name => .error (.unknownFlavor name)

def update (registration : Registration) (element : Element) : Except Fault Registration :=
  if element.name = "OpModeMeta" then do
    let flavor ←
      match element.attributes.get? "flavor" with
      | some name => flavorOf name
      | none => .ok registration.flavor
    return { registration with
      flavor
      group := (element.attributes.get? "group").getD registration.group
      autoTransition :=
        (element.attributes.get? "autoTransition").getD registration.autoTransition }
  else if element.name = "Enabled" then
    .ok { registration with enabled := element.attributes.get? "value" ≠ some "false" }
  else .ok registration

def ofElement (element : Element) : Except Fault Registration :=
  element.children.foldlM update {}

end Registration

end RobotBlocks
