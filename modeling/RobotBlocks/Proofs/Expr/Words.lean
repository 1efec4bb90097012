import RobotBlocks.Proofs.Text.Words

/-!
# The words of printed expressions

The words of an expression are those of its text, so that nothing depends on how the expression was put
together. For each kind of expression there is one lemma: it has the words of its parts.
-/

set_option autoImplicit false

namespace RobotBlocks

open Precedence

open Text (Refers Closed isSign)

variable {P : String → Prop}

/-- Parentheses make no difference. -/
theorem Precedence.refers_wrap {code : String} (h : Refers P code) (inner outer : Precedence) :
    Refers P (wrap code inner outer) := by
  unfold wrap
  split
  · exact ((Text.closed_of_isSign rfl).follow h |>.sign rfl).refers
  · exact h

namespace Expr

variable {expr left right : Expr} {exprs : List Expr}

/-- All words of an expression are of a kind. -/
abbrev RefersTo (P : String → Prop) (expr : Expr) : Prop := Refers P expr.print

theorem refers_printAt (h : expr.RefersTo P) (place : Precedence) : Refers P (expr.printAt place) :=
  refers_wrap h _ _

theorem refers_printAll (h : ∀ expr ∈ exprs, expr.RefersTo P) :
    ∀ text ∈ printAll exprs, Refers P text := by
  induction exprs with
  | nil => exact List.forall_mem_nil _
  | cons expr rest ih =>
    obtain ⟨hexpr, hrest⟩ := List.forall_mem_cons.1 h
    exact List.forall_mem_cons.2 ⟨refers_printAt hexpr .comma, ih hrest⟩

/-- Arguments in parentheses. -/
theorem closed_arguments {function : String} (hfunction : Refers P function)
    (h : ∀ expr ∈ exprs, expr.RefersTo P) :
    Closed P (function ++ "(" ++ ", ".intercalate (printAll exprs) ++ ")") :=
  ((hfunction.sign rfl).follow (.intercalate rfl (refers_printAll h))).sign rfl

namespace RefersTo

theorem call {function : String} (hfunction : Refers P function)
    (h : ∀ expr ∈ exprs, expr.RefersTo P) : (Expr.call function exprs).RefersTo P :=
  (closed_arguments hfunction h).refers

theorem method {member : String} (h : expr.RefersTo P) (hmember : Refers P member)
    (hall : ∀ expr ∈ exprs, expr.RefersTo P) : (Expr.method expr member exprs).RefersTo P :=
  (closed_arguments (((refers_wrap h _ _).sign rfl).follow hmember) hall).refers

theorem negate (h : expr.RefersTo P) : (Expr.negate expr).RefersTo P := by
  have hoperand := refers_wrap h expr.level .unary
  unfold RefersTo Expr.print withMinus
  split
  · exact ((Text.closed_of_isSign rfl).follow hoperand |>.sign rfl).refers
  · exact (Text.closed_of_isSign rfl).follow hoperand

theorem not (h : expr.RefersTo P) : (Expr.not expr).RefersTo P :=
  (Text.closed_of_isSign rfl).follow (Precedence.refers_wrap h _ _)

theorem cast {type : String} (h : expr.RefersTo P) (htype : Refers P type) :
    (Expr.cast type expr).RefersTo P :=
  ((Text.closed_of_isSign rfl).follow htype |>.sign rfl).follow (Precedence.refers_wrap h _ _)

variable {operator : Operator}

theorem binary (hoperator : isSign (" " ++ operator.symbol ++ " ") = true)
    (hleft : left.RefersTo P) (hright : right.RefersTo P) :
    (Expr.binary operator left right).RefersTo P := by
  have hsign := (refers_wrap hleft left.level operator.leftContext).sign hoperator
  rw [← String.append_assoc, ← String.append_assoc] at hsign
  exact hsign.follow (refers_wrap hright _ _)

theorem conditional {test : Expr} (htest : test.RefersTo P) (hleft : left.RefersTo P)
    (hright : right.RefersTo P) : (Expr.conditional test left right).RefersTo P := by
  have hwrap : ∀ {part : Expr}, part.RefersTo P → ∀ place, Refers P (part.printAt place) :=
    fun hpart => refers_printAt hpart
  exact ((((hwrap htest _).sign rfl).follow (hwrap hleft _)).sign rfl).follow (hwrap hright _)

theorem chain (hoperator : isSign (" " ++ operator.symbol ++ " ") = true) (h : expr.RefersTo P)
    (hall : ∀ expr ∈ exprs, expr.RefersTo P) : (Expr.chain operator expr exprs).RefersTo P := by
  induction exprs generalizing expr with
  | nil => exact h
  | cons next rest ih =>
    obtain ⟨hnext, hrest⟩ := List.forall_mem_cons.1 hall
    exact ih (.binary hoperator h hnext) hrest

end RefersTo

end Expr

end RobotBlocks
