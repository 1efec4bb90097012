/-!
# Operator precedence

Both targets bind their operators alike, so one scale of levels serves both, the tightest first. An
expression goes into parentheses exactly if its own level is looser than the one its place allows
(`needsParens`).

A binary operator allows its own level on its left if it chains, and only tighter levels on its right.
-/

set_option autoImplicit false

namespace RobotBlocks

/-- How tightly an expression holds together, the tightest first. -/
inductive Precedence where
  | atomic
  | member
  | unary
  | multiplicative
  | additive
  | relational
  | equality
  | conjunction
  | disjunction
  | conditional
  | assignment
  | comma
  /-- A place that takes everything. -/
  | anything
  deriving DecidableEq, Repr

namespace Precedence

def rank : Precedence → Nat
  | atomic => 0
  | member => 1
  | unary => 2
  | multiplicative => 3
  | additive => 4
  | relational => 5
  | equality => 6
  | conjunction => 7
  | disjunction => 8
  | conditional => 9
  | assignment => 10
  | comma => 11
  | anything => 12

/-- The next tighter level; the tightest stays. -/
def tighter : Precedence → Precedence
  | atomic => atomic
  | member => atomic
  | unary => member
  | multiplicative => unary
  | additive => multiplicative
  | relational => additive
  | equality => relational
  | conjunction => equality
  | disjunction => conjunction
  | conditional => disjunction
  | assignment => conditional
  | comma => assignment
  | anything => comma

/-- Whether an expression of level `inner` needs parentheses where `outer` is allowed. -/
def needsParens (inner outer : Precedence) : Bool := outer.rank < inner.rank

/-- The text of an expression of level `inner` for a place that allows `outer`. -/
def wrap (code : String) (inner outer : Precedence) : String :=
  if needsParens inner outer then "(" ++ code ++ ")" else code

theorem rank_inj {a b : Precedence} (h : a.rank = b.rank) : a = b := by
  cases a <;> cases b <;> simp [rank] at h ⊢

theorem rank_tighter (p : Precedence) : p.tighter.rank = p.rank - 1 := by
  cases p <;> rfl

end Precedence

structure Operator where
  symbol : String
  /-- The level of the whole expression. -/
  level : Precedence
  /-- Whether the left operand may have the same level. -/
  chains : Bool := true
  deriving DecidableEq, Repr

namespace Operator

/-- What the left operand may be without parentheses. -/
def leftContext (op : Operator) : Precedence := if op.chains then op.level else op.level.tighter

/-- What the right operand may be without parentheses. -/
def rightContext (op : Operator) : Precedence := op.level.tighter

def plus : Operator := { symbol := "+", level := .additive }

def minus : Operator := { symbol := "-", level := .additive }

def times : Operator := { symbol := "*", level := .multiplicative }

def divide : Operator := { symbol := "/", level := .multiplicative }

def equal : Operator := { symbol := "==", level := .equality }

def notEqual : Operator := { symbol := "!=", level := .equality }

def less : Operator := { symbol := "<", level := .relational, chains := false }

def lessOrEqual : Operator := { symbol := "<=", level := .relational, chains := false }

def greater : Operator := { symbol := ">", level := .relational, chains := false }

def greaterOrEqual : Operator := { symbol := ">=", level := .relational, chains := false }

def and : Operator := { symbol := "&&", level := .conjunction }

def or : Operator := { symbol := "||", level := .disjunction }

end Operator

end RobotBlocks
