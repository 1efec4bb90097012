import RobotBlocks.Proofs.Block.InferredAccess
import RobotBlocks.Proofs.ClassType.Arrays

/-!
# Resolved class types

A class type is resolved twice: for a parameter and for a result. A result fits a parameter of its own
type, since both have the same check but for matrices, of which a parameter takes two kinds.

Descriptors are cut character by character. `label?` is the label with the cut that can fail, of the
first character of what is taken for an array; it never does.
-/

set_option autoImplicit false

namespace RobotBlocks.ClassType

open List

mutual

/-- The label of an array, whose descriptor has to begin with a character of one byte. -/
def arrayChars? : List Char → Option (List Char)
  | [] => none
  | first :: rest =>
    if first.toNat < 128 then (elementChars? rest).map (· ++ ['[', ']']) else none
termination_by cs => (cs.length, 0)

/-- The label of the elements of an array. -/
def elementChars? : List Char → Option (List Char)
  | [] => some "Object".toList
  | code :: rest =>
    if code = '[' then arrayChars? (code :: rest)
    else if code = 'L' then labelChars? (dropSemicolon rest)
    else some ((primitiveName? code).getD "Object").toList
termination_by cs => (cs.length, 1)
decreasing_by
  · exact Prod.Lex.right _ (by decide)
  · refine Prod.Lex.left _ _ ?_
    have := length_dropSemicolon_le rest
    simp
    omega

def labelChars? (name : List Char) : Option (List Char) :=
  if name.head? = some '[' then arrayChars? name else some (dotInner (withoutPackage name))
termination_by (name.length, 1)

end

/-- The label of a class type, unless a cut fails. -/
def label? (classType : String) : Option String := (labelChars? classType.toList).map String.ofList

/-! ## Labels -/

theorem arrayChars?_cons {rest : List Char}
    (h : elementChars? rest = some (elementLabel false rest)) :
    arrayChars? ('[' :: rest) = some (elementLabel false rest ++ ['[', ']']) := by
  rw [arrayChars?, if_pos (by decide), h]
  rfl

theorem labelChars_of_head? {name : List Char} (h : name.head? ≠ some '[') :
    labelChars false name = dotInner (withoutPackage name) := by
  rw [labelChars, if_neg (by simp)]
  rintro rest rfl
  exact h rfl

/-- Only what begins with a bracket is read as an array, so every cut is of a bracket. -/
theorem chars?_eq (bound : Nat) (cs : List Char) (hbound : cs.length ≤ bound) :
    elementChars? cs = some (elementLabel false cs) ∧
      labelChars? cs = some (labelChars false cs) := by
  induction bound generalizing cs with
  | zero =>
    obtain rfl := length_eq_zero_iff.1 (Nat.le_zero.1 hbound)
    simp [elementChars?, elementLabel, labelChars?, labelChars]
  | succ bound ih =>
    cases cs with
    | nil => exact ih [] (Nat.zero_le _)
    | cons code rest =>
      have hrest : rest.length ≤ bound := Nat.le_of_succ_le_succ hbound
      by_cases hbracket : code = '['
      · subst hbracket
        have harray := arrayChars?_cons (ih rest hrest).1
        constructor
        · rw [elementChars?, if_pos rfl, harray, elementLabel]
        · rw [labelChars?, head?_cons, if_pos rfl, harray, labelChars]
      · have hhead : (code :: rest).head? ≠ some '[' := by simpa using hbracket
        rw [labelChars?, if_neg hhead, labelChars_of_head? hhead, elementChars?, if_neg hbracket]
        refine ⟨?_, rfl⟩
        by_cases hclass : code = 'L'
        · subst hclass
          have hname := Nat.le_trans (length_dropSemicolon_le rest) hrest
          rw [if_pos rfl, (ih _ hname).2, elementLabel]
        · rw [if_neg hclass, elementLabel]
          · exact hbracket
          · exact hclass

theorem label?_eq (classType : String) : label? classType = some (label classType) := by
  rw [label?, (chars?_eq _ classType.toList le_rfl).2]
  rfl

/-! ## Checks -/

variable {classType : String}

theorem label_of_head? (h : classType.toList.head? ≠ some '[') :
    label classType = String.ofList (dotInner (withoutPackage classType.toList)) := by
  rw [label, labelChars_of_head? h]

section

variable (h : label classType = "MatrixF")

include h

theorem head?_of_label_eq :
    classType.toList.head? ≠ some '[' := by
  intro hhead
  obtain ⟨rest, hrest⟩ : ∃ rest, classType.toList = '[' :: rest :=
    head?_eq_some_iff.1 hhead
  rw [label, hrest, labelChars] at h
  -- the label of an array ends with a bracket
  have hlast := congrArg (fun text : String => text.toList.getLast?) h
  simp at hlast
/-- The class types that have a check of their own, whatever their label. -/
def listed : List String :=
  "java.lang.Object" :: (ambientClasses ++ Scalar.classes)

theorem not_mem_listed : classType ∉ listed := by
  have hlisted : ∀ name ∈ listed, dotInner (withoutPackage name.toList) ≠ "MatrixF".toList := by
    decide
  intro hmem
  rw [label_of_head? (head?_of_label_eq h)] at h
  exact hlisted classType hmem (by simpa using congrArg String.toList h)

/-- Of matrices a parameter takes two kinds. -/
theorem check_of_label_eq :
    check classType .input = matrixCheck ∧ check classType .output = .one "MatrixF" := by
  have hhead := head?_of_label_eq h
  have hlisted := not_mem_listed h
  have hknown : (knownClass? "MatrixF").isSome = true := rfl
  simp only [listed, Scalar.classes, mem_cons, mem_append, not_or] at hlisted
  obtain ⟨hobject, hambient, ⟨hboolean, htext⟩, hnumber⟩ := hlisted
  simp [check, hhead, hobject, hambient, hboolean, htext, hnumber, h, hknown]

end

/-- All else is one thing, or anything at all. -/
theorem check_of_label_ne (h : label classType ≠ "MatrixF") :
    check classType .input = check classType .output ∧
      (check classType .output = .any ∨ ∃ name, check classType .output = .one name) := by
  unfold check
  simp only [h, false_and, if_false, true_and]
  split_ifs <;> simp [Check.boolean, Check.text, Check.number]

/-- A class type has one label as a parameter and as a result, which is read without fail, and a result
fits a parameter of its type. Their checks are the same but for matrices. -/
theorem resolution_is_coherent (classType : String) :
    label? classType = some (label classType) ∧
      (resolve classType .input).check.accepts (resolve classType .output).check = true ∧
      (resolve classType .input).label = (resolve classType .output).label ∧
      ((resolve classType .input).check = (resolve classType .output).check ↔
        label classType ≠ "MatrixF") := by
  refine ⟨label?_eq classType, ?_⟩
  unfold resolve
  dsimp only
  by_cases hmatrix : label classType = "MatrixF"
  · obtain ⟨hinput, houtput⟩ := check_of_label_eq hmatrix
    rw [hinput, houtput]
    refine ⟨rfl, ?_, by simp [hmatrix, matrixCheck]⟩
    have hdeclared : declaredType classType matrixCheck .input = "MatrixF" := rfl
    rw [hdeclared]
    simp [declaredType, hmatrix, Check.isNumber, Check.number]
  · obtain ⟨hsame, hform⟩ := check_of_label_ne hmatrix
    rw [hsame]
    rcases hform with hform | ⟨name, hform⟩ <;> rw [hform] <;>
      simp [hmatrix, Check.accepts, Check.labels, declaredType, isMatrixChoice]

end RobotBlocks.ClassType
