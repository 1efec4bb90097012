import RobotBlocks.Proofs.Expr.RoundTrip
import RobotBlocks.Proofs.Numeral.Literal

/-!
# Expressions of trees

`Expr.Writes expr tree` says that an expression is readable and stands for a tree of the grammar, so
that its text is read back as that tree (`Writes.read`). There is one lemma for each form of
expression, so that later proofs put expressions together without a look at their texts.
-/

set_option autoImplicit false

namespace RobotBlocks

open Grammar RobotBlocks.Expr

namespace Expr

/-- A readable expression of a tree. -/
def Writes (expr : Expr) (tree : Tree) : Prop := Readable expr ∧ expr.tree = tree

def WritesAll : List Expr → List Tree → Prop := List.Forall₂ Writes

theorem WritesAll.readable {exprs : List Expr} {trees : List Tree} (h : WritesAll exprs trees) :
    ∀ expr ∈ exprs, Readable expr := by
  induction h with
  | nil => simp
  | cons hfirst _ ih =>
    intro expr hexpr
    rcases List.mem_cons.1 hexpr with rfl | hexpr
    · exact hfirst.1
    · exact ih expr hexpr

theorem WritesAll.trees_eq {exprs : List Expr} {ts : List Tree} (h : WritesAll exprs ts) :
    trees exprs = ts := by
  induction h with
  | nil => rfl
  | cons hfirst _ ih => rw [trees, hfirst.2, ih]

namespace Writes

variable {expr left right : Expr} {tree leftTree rightTree : Tree}

theorem read (h : expr.Writes tree) : Grammar.read expr.print = some tree :=
  h.2 ▸ read_print h.1

theorem digits {literal : String} (h : IsDigits literal.toList) :
    (number literal).Writes (.number literal) := by
  have hminus : startsWithMinus literal = false := by
    rw [startsWithMinus, decide_eq_false_iff_not]
    intro hhead
    exact absurd (h.2 '-' (List.mem_of_mem_head? hhead)) (by decide)
  have hnumber := isNumber_of_isDigits h
  refine ⟨.number (.inl (IsLiteral.positive hnumber).isNumber_magnitude), ?_⟩
  simp [tree, magnitude_of_plain hminus, hminus, magnitudeTree_of_isNumber hnumber]

theorem name {word : String} (h : IsWord word.toList) (htype : word ∉ typeWords) :
    (name word).Writes (.name word) := ⟨.name h htype, rfl⟩

theorem text {mark : Char} (h : mark = '\'' ∨ mark = '"') (content : String) :
    (text mark content).Writes (.text content) := ⟨.text h content, rfl⟩

theorem path {code : String} (h : IsPath code) (htree : pathTree code = tree) :
    (path code).Writes tree := ⟨.path h, htree⟩

theorem negate (h : expr.Writes tree) : (negate expr).Writes (.negate tree) :=
  ⟨.negate h.1, by rw [Expr.tree, h.2]⟩

theorem not (h : expr.Writes tree) : (not expr).Writes (.not tree) :=
  ⟨.not h.1, by rw [Expr.tree, h.2]⟩

theorem cast (h : expr.Writes tree) (type : NumericType) :
    (cast type.label expr).Writes (.cast type.label tree) := by
  refine ⟨.cast ?_ h.1, by rw [Expr.tree, h.2]⟩
  cases type <;> decide

theorem binary {operator : Operator} (hoperator : operator ∈ Operator.all)
    (hleft : left.Writes leftTree) (hright : right.Writes rightTree) :
    (binary operator left right).Writes (.binary operator.symbol leftTree rightTree) :=
  ⟨.binary hoperator hleft.1 hright.1, by rw [tree, hleft.2, hright.2]⟩

theorem conditional {test : Expr} {testTree : Tree} (htest : test.Writes testTree)
    (hyes : left.Writes leftTree) (hno : right.Writes rightTree) :
    (conditional test left right).Writes (.conditional testTree leftTree rightTree) :=
  ⟨.conditional htest.1 hyes.1 hno.1, by rw [tree, htest.2, hyes.2, hno.2]⟩

variable {exprs : List Expr} {ts : List Tree}

theorem list (h : WritesAll exprs ts) : (list exprs).Writes (.list ts) :=
  ⟨.list h.readable, by rw [tree, h.trees_eq]⟩

theorem call {function : String} (hfunction : IsPath function) (htree : pathTree function = tree)
    (h : WritesAll exprs ts) : (call function exprs).Writes (.call tree ts) :=
  ⟨.call hfunction h.readable, by rw [Expr.tree, h.trees_eq, htree]⟩

theorem join (h : WritesAll exprs ts) :
    (method (.list exprs) "join" [.text '\'' ""]).Writes
      (.call (.member (.list ts) "join") [.text ""]) := by
  have harguments : WritesAll [.text '\'' ""] [.text ""] := .cons (.text (.inl rfl) "") .nil
  refine ⟨.method h.readable (by decide) harguments.readable, ?_⟩
  rw [tree, harguments.trees_eq, tree, h.trees_eq]

theorem chain (hfirst : expr.Writes tree) (h : WritesAll exprs ts) :
    (chain .plus expr exprs).Writes (ts.foldl (.binary "+") tree) := by
  induction h generalizing expr tree with
  | nil => exact hfirst
  | cons hnext _ ih => exact ih (binary (by decide) hfirst hnext)

end Writes

end Expr

end RobotBlocks
