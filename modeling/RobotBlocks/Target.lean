/-!
# Targets

A program is rendered as a script for the runtime bridge, in JavaScript, or as a class for the
compiler, in Java.
-/

set_option autoImplicit false

namespace RobotBlocks

inductive Target where
  | javaScript
  | java
  deriving DecidableEq, Repr

def Target.language : Target → String
  | javaScript => "JavaScript"
  | java => "Java"

/-- What the generated class is called and where it belongs. -/
structure ClassOptions where
  className : String := "BlocksOpMode"
  package : String := "org.firstinspires.ftc.teamcode"
  deriving DecidableEq, Repr

end RobotBlocks
