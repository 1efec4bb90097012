import RobotBlocks.Dict

/-!
# XML elements

An element as programs use it: its local name, its attributes by local name, the text that stands
directly in it, and the elements in it. Comments and instructions leave no trace.
-/

set_option autoImplicit false

namespace RobotBlocks.Xml

structure Element where
  /-- The name without its namespace. -/
  name : String
  /-- The attributes by their name without its namespace. -/
  attributes : Dict String
  /-- All text that stands directly in the element, joined. -/
  text : String
  children : List Element

end RobotBlocks.Xml
