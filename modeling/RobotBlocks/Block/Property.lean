import RobotBlocks.Binary64.Reading
import RobotBlocks.Block.Basic

/-!
# Properties chosen in dropdowns

Getter and setter blocks name the property they work on in a field. The tables here list the
properties of colors, gamepads and devices; a value outside its table is a fault of the block. The
types that such blocks take and give in the compiled target follow from the property.
-/

set_option autoImplicit false

namespace RobotBlocks

inductive ColorProperty where
  | red
  | green
  | blue
  | alpha
  | hue
  | saturation
  | value
  deriving DecidableEq, Repr

namespace ColorProperty

def name : ColorProperty → String
  | red => "Red"
  | green => "Green"
  | blue => "Blue"
  | alpha => "Alpha"
  | hue => "Hue"
  | saturation => "Saturation"
  | value => "Value"

def method : ColorProperty → String
  | red => "red"
  | green => "green"
  | blue => "blue"
  | alpha => "alpha"
  | hue => "hue"
  | saturation => "saturation"
  | value => "value"

def all : List ColorProperty := [red, green, blue, alpha, hue, saturation, value]

/-- Whether a component is one of those that a color consists of; the others are computed. -/
def isChannel : ColorProperty → Bool
  | red | green | blue | alpha => true
  | _ => false

def of (block : Block) : Except Fault ColorProperty := do
  let prop ← block.requiredField "PROP"
  match all.find? (fun property => property.name = prop) with
  | some property => .ok property
  | none => .error (block.unexpected "PROP" prop)

/-- The type of a component in the compiled target. -/
def declared (property : ColorProperty) : String := if property.isChannel then "int" else "float"

end ColorProperty

structure GamepadProperty where
  name : String
  /-- The member of the compiled target's gamepad. -/
  member : String
  /-- Whether it has values between off and on. -/
  analog : Bool
  deriving DecidableEq, Repr

namespace GamepadProperty

def button (name member : String) : GamepadProperty := { name, member, analog := false }

def axis (name member : String) : GamepadProperty := { name, member, analog := true }

def all : List GamepadProperty :=
  [button "A" "a", button "AtRest" "atRest()", button "B" "b", button "Back" "back",
   button "Circle" "circle", button "Cross" "cross", button "DpadDown" "dpad_down",
   button "DpadLeft" "dpad_left", button "DpadRight" "dpad_right", button "DpadUp" "dpad_up",
   button "Guide" "guide", button "LeftBumper" "left_bumper",
   button "LeftStickButton" "left_stick_button", axis "LeftStickX" "left_stick_x",
   axis "LeftStickY" "left_stick_y", axis "LeftTrigger" "left_trigger",
   button "Options" "options", button "PS" "ps", button "RightBumper" "right_bumper",
   button "RightStickButton" "right_stick_button", axis "RightStickX" "right_stick_x",
   axis "RightStickY" "right_stick_y", axis "RightTrigger" "right_trigger",
   button "Share" "share", button "Square" "square", button "Start" "start",
   button "Touchpad" "touchpad", button "Triangle" "triangle", button "X" "x", button "Y" "y"]

/-- Whether a getter with a typing may ask for a property. -/
def fits (property : GamepadProperty) : Typing → Bool
  | .untyped => true
  | .boolean => !property.analog
  | .number => property.analog

def of (block : Block) (typing : Typing) : Except Fault GamepadProperty := do
  let prop ← block.requiredField "PROP"
  match all.find? (fun property => property.name = prop) with
  | some property =>
    if property.fits typing then .ok property else .error (block.unexpected "PROP" prop)
  | none => .error (block.unexpected "PROP" prop)

def declared (property : GamepadProperty) : String := if property.analog then "float" else "boolean"

end GamepadProperty

structure DeviceProperty where
  name : String
  /-- Its type in the compiled target. -/
  declared : String
  setter : Option String
  getter : String
  deriving DecidableEq, Repr

namespace DeviceProperty

def all : DeviceKind → List DeviceProperty
  | .dcMotor =>
    [⟨"Power", "double", some "setPower", "getPower"⟩,
     ⟨"TargetPosition", "int", some "setTargetPosition", "getTargetPosition"⟩,
     ⟨"Velocity", "double", some "setVelocity", "getVelocity"⟩,
     ⟨"TargetPositionTolerance", "int", some "setTargetPositionTolerance",
      "getTargetPositionTolerance"⟩,
     ⟨"CurrentPosition", "int", none, "getCurrentPosition"⟩]
  | .servo => [⟨"Position", "double", some "setPosition", "getPosition"⟩]
  | .touchSensor => [⟨"IsPressed", "boolean", none, "isPressed"⟩]

/-- The property that a block reads or, if `setting`, writes. -/
def of (block : Block) (kind : DeviceKind) (setting : Bool) : Except Fault DeviceProperty := do
  let prop ← block.requiredField "PROP"
  match (all kind).find?
      (fun property => property.name = prop && (!setting || property.setter.isSome)) with
  | some property => .ok property
  | none => .error (block.unexpected "PROP" prop)

end DeviceProperty

namespace Block

/-- The value of a field that has to be one of some choices. -/
def choice (block : Block) (field : String) (choices : List String) : Except Fault String := do
  let value ← block.requiredField field
  if choices.contains value then .ok value else .error (block.unexpected field value)

def gamepad (block : Block) : Except Fault String :=
  block.choice "IDENTIFIER" ["gamepad1", "gamepad2"]

def displayFormat (block : Block) : Except Fault String :=
  block.choice "DISPLAY_FORMAT" ["CLASSIC", "HTML", "MONOSPACE"]

def literal (block : Block) : Except Fault Binary64 := do
  let text ← block.requiredField "NUM"
  match Binary64.read (Text.trim text) with
  | some value => .ok value
  | none => .error (.malformedNumber block.id block.typeName text)

/-- The type that the compiled target expects in a socket, if the block states one. -/
def inputType (block : Block) (socket : String) : Except Fault (Option String) :=
  match block.kind, socket with
  | .deviceSet kind, "VALUE" => do
    let property ← DeviceProperty.of block kind true
    return some property.declared
  | _, _ => .ok ((block.shape.socket? socket).bind Socket.declared)

/-- The type of the value of a block in the compiled target, if the block states one. -/
def outputType (block : Block) : Except Fault (Option String) :=
  match block.kind with
  | .colorGet _ => do return some (← ColorProperty.of block).declared
  | .gamepadGet typing => do return some (← GamepadProperty.of block typing).declared
  | .deviceGet kind => do return some (← DeviceProperty.of block kind false).declared
  | _ =>
    match block.shape.output with
    | .value _ declared => .ok declared
    | .statement => .ok none

end Block

end RobotBlocks
