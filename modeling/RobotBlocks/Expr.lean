import RobotBlocks.Numeral
import RobotBlocks.NumericType
import RobotBlocks.Precedence
import RobotBlocks.Text.Basic

/-!
# Expressions

A value block becomes an expression. Both targets share one kind of tree; what differs is which tree a
block becomes. Parentheses are not part of the tree: `print` puts them where an operand is looser than
its place allows, and around the operand of a minus that begins with a minus itself.
-/

set_option autoImplicit false

namespace RobotBlocks

inductive Expr where
  /-- A number literal, with its sign. -/
  | number (literal : String)
  /-- A text literal between two marks. -/
  | text (mark : Char) (content : String)
  /-- An identifier, or a word such as `null`. -/
  | name (word : String)
  /-- A text that was supplied and is written as it is. -/
  | verbatim (code : String)
  /-- A member of something that has a name. -/
  | path (code : String)
  | list (items : List Expr)
  | call (function : String) (arguments : List Expr)
  /-- A call of a method of a value. -/
  | method (receiver : Expr) (member : String) (arguments : List Expr)
  | negate (operand : Expr)
  | not (operand : Expr)
  | cast (type : String) (operand : Expr)
  | binary (operator : Operator) (left right : Expr)
  | conditional (test yes no : Expr)
  deriving Repr

namespace Expr

def startsWithMinus (code : String) : Bool := code.toList.head? = some '-'

def level : Expr → Precedence
  | number literal => if startsWithMinus literal then .unary else .atomic
  | text .. | name .. | verbatim .. | list .. => .atomic
  | path .. | call .. | method .. => .member
  | negate .. | not .. | cast .. => .unary
  | binary operator .. => operator.level
  | conditional .. => .conditional

/-- A minus in front of a text. A second minus right behind it would be read as one operator with it,
so such a text goes into parentheses. -/
def withMinus (code : String) : String :=
  if startsWithMinus code then "-(" ++ code ++ ")" else "-" ++ code

mutual

def print : Expr → String
  | number literal => literal
  | text mark content => Text.quote mark content
  | name word => word
  | verbatim code => code
  | path code => code
  | list items => "[" ++ ", ".intercalate (printAll items) ++ "]"
  | call function arguments => function ++ "(" ++ ", ".intercalate (printAll arguments) ++ ")"
  | method receiver member arguments =>
    Precedence.wrap receiver.print receiver.level .member ++ "." ++ member ++ "(" ++
      ", ".intercalate (printAll arguments) ++ ")"
  | negate operand => withMinus (Precedence.wrap operand.print operand.level .unary)
  | not operand => "!" ++ Precedence.wrap operand.print operand.level .unary
  | cast type operand =>
    "(" ++ type ++ ") " ++ Precedence.wrap operand.print operand.level .unary
  | binary operator left right =>
    Precedence.wrap left.print left.level operator.leftContext ++ " " ++ operator.symbol ++ " " ++
      Precedence.wrap right.print right.level operator.rightContext
  | conditional test yes no =>
    Precedence.wrap test.print test.level Precedence.conditional.tighter ++ " ? " ++
      Precedence.wrap yes.print yes.level .conditional ++ " : " ++
      Precedence.wrap no.print no.level .conditional

def printAll : List Expr → List String
  | [] => []
  | expr :: rest => Precedence.wrap expr.print expr.level .comma :: printAll rest

end

/-- The text of an expression at a place that allows a level. -/
def printAt (expr : Expr) (place : Precedence) : String :=
  Precedence.wrap expr.print expr.level place

/-- The expressions with an operator between each two, grouped from the left. -/
def chain (operator : Operator) (first : Expr) (rest : List Expr) : Expr :=
  rest.foldl (binary operator) first

/-- The literal of a number, for a place that takes values of a numeric type: as it is if the type
holds it, with the mark of the type if there is one, and converted otherwise. -/
def literalFor (type : NumericType) (value : Binary64) (literal : Expr) : Expr :=
  if !value.isFinite || (Numeral.fitsInt value && NumericType.int.rank ≤ type.rank) then literal
  else
    match type with
    | .double => literal
    | .float =>
      if value.absAtMost Numeral.maxFloat then number (Numeral.classText value ++ "F")
      else cast type.label literal
    | .long =>
      if value.isWhole && value.absBelow Numeral.longBound then
        number (toString value.toInteger ++ "L")
      else cast type.label literal
    | type => cast type.label literal

end Expr

end RobotBlocks
