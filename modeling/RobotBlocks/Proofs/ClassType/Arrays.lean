import RobotBlocks.Proofs.Context.Imports

/-!
# Arrays and inner classes

The descriptor of an array is read twice: from the left for its label, and by its form as a whole for the
class to import. Both come to the class of the elements, however many dimensions there are, and behind
the label stands one pair of brackets for each. In the label of an inner class and in its import the
outermost class has the same name.
-/

set_option autoImplicit false

namespace RobotBlocks.ClassType

open List

/-- A text so many times. -/
def times (n : Nat) (text : String) : String := String.ofList (List.replicate n text.toList).flatten

/-- The descriptor of an array with so many dimensions. -/
def descriptor (dimensions : Nat) (element : String) : String := times dimensions "[" ++ element

def classCode (className : String) : String := "L" ++ className ++ ";"

theorem toList_descriptor (dimensions : Nat) (element : String) :
    (descriptor dimensions element).toList = List.replicate dimensions '[' ++ element.toList := by
  simp [descriptor, times]

theorem toList_classCode (className : String) :
    (classCode className).toList = 'L' :: (className.toList ++ [';']) := by
  simp [classCode]

/-! ## Labels -/

variable {code : Char} {primitive : String}

section

variable {keepPackage : Bool}

theorem elementLabel_replicate (n : Nat) (element : List Char) :
    elementLabel keepPackage (List.replicate n '[' ++ element) =
      elementLabel keepPackage element ++ (List.replicate n ['[', ']']).flatten := by
  induction n with
  | zero => simp
  | succ n ih =>
    rw [replicate_succ, cons_append, elementLabel, ih, replicate_succ',
      flatten_append, append_assoc]
    rfl

/-- Behind the label of the elements there is a pair of brackets for each dimension. -/
theorem labelChars_replicate (n : Nat) (element : List Char) :
    labelChars keepPackage (List.replicate (n + 1) '[' ++ element) =
      elementLabel keepPackage element ++ (List.replicate (n + 1) ['[', ']']).flatten := by
  have hcount := @elementLabel_replicate keepPackage (n + 1) element
  rw [replicate_succ, cons_append, elementLabel] at hcount
  rw [replicate_succ, cons_append, labelChars, hcount]

theorem elementLabel_class (name : List Char) :
    elementLabel keepPackage ('L' :: (name ++ [';'])) = labelChars keepPackage name := by
  rw [elementLabel, dropSemicolon, if_pos (by simp), dropLast_concat]

theorem elementLabel_primitive (h : primitiveName? code = some primitive) :
    elementLabel keepPackage [code] = primitive.toList := by
  unfold primitiveName? at h
  split at h <;> cases h <;> simp [elementLabel, primitiveName?]

variable {dimensions : Nat} (hdimensions : 0 < dimensions)

include hdimensions

theorem ofList_labelChars_descriptor (element : String) :
    String.ofList (labelChars keepPackage (descriptor dimensions element).toList) =
      String.ofList (elementLabel keepPackage element.toList) ++ times dimensions "[]" := by
  obtain ⟨n, rfl⟩ := Nat.exists_eq_add_one_of_ne_zero (Nat.ne_of_gt hdimensions)
  rw [toList_descriptor, labelChars_replicate, String.ofList_append]
  rfl

theorem label_array (className : String) :
    label (descriptor dimensions (classCode className)) = label className ++ times dimensions "[]" ∧
      qualifiedLabel (descriptor dimensions (classCode className)) =
        qualifiedLabel className ++ times dimensions "[]" := by
  unfold label qualifiedLabel
  simp only [ofList_labelChars_descriptor hdimensions, toList_classCode, elementLabel_class, and_self]

theorem label_primitiveArray (h : primitiveName? code = some primitive) :
    label (descriptor dimensions (String.singleton code)) = primitive ++ times dimensions "[]" ∧
      qualifiedLabel (descriptor dimensions (String.singleton code)) =
        primitive ++ times dimensions "[]" := by
  unfold label qualifiedLabel
  simp only [ofList_labelChars_descriptor hdimensions, String.toList_singleton,
    elementLabel_primitive h, String.ofList_toList, and_self]

theorem head?_descriptor (element : String) :
    (descriptor dimensions element).toList.head? = some '[' := by
  obtain ⟨n, rfl⟩ := Nat.exists_eq_add_one_of_ne_zero (Nat.ne_of_gt hdimensions)
  rw [toList_descriptor, replicate_succ, cons_append, head?_cons]

theorem check_descriptor (element : String) (position : Position) :
    check (descriptor dimensions element) position = .one (descriptor dimensions element) := by
  rw [check, if_pos (head?_descriptor hdimensions element)]

/-! ## Imports -/

theorem elementClass?_descriptor {className : String}
    (hname : className ≠ "") (hsemicolon : ';' ∉ className.toList) :
    elementClass? (descriptor dimensions (classCode className)).toList = some className.toList := by
  have hbrackets : ∀ c ∈ List.replicate dimensions '[', decide (c = '[') = true := by
    intro c hc
    rw [eq_of_mem_replicate hc]
    rfl
  have hrest : ((descriptor dimensions (classCode className)).toList.dropWhile (· = '[')) =
      'L' :: (className.toList ++ [';']) := by
    rw [toList_descriptor, dropWhile_append_of_pos hbrackets, toList_classCode]
    rfl
  rw [elementClass?, hrest]
  simp [head?_descriptor hdimensions, hsemicolon, hname]

theorem importTarget_array {className : String}
    (hname : className ≠ "") (hsemicolon : ';' ∉ className.toList) :
    importTarget (descriptor dimensions (classCode className)) = importTarget className := by
  have hdot : '.' ∈ (descriptor dimensions (classCode className)).toList ↔
      '.' ∈ className.toList := by
    rw [toList_descriptor, toList_classCode]
    simp
  unfold importTarget
  by_cases hmem : '.' ∈ className.toList
  · rw [importTargetChars, if_neg (by simpa using hdot.2 hmem),
      if_pos (head?_descriptor hdimensions _)]
    have helement := elementClass?_descriptor hdimensions hname hsemicolon
    split
    · rename_i name hfound
      obtain rfl := Option.some.inj (helement.symm.trans hfound)
      rfl
    · rename_i hfound
      cases helement.symm.trans hfound
  · rw [importTargetChars, if_pos (mt hdot.1 hmem), importTargetChars, if_pos hmem]

end

theorem importTarget_primitiveArray (dimensions : Nat) (h : primitiveName? code = some primitive) :
    importTarget (descriptor dimensions (String.singleton code)) = none := by
  have hdot : '.' ∉ (descriptor dimensions (String.singleton code)).toList := by
    rw [toList_descriptor]
    unfold primitiveName? at h
    split at h <;> simp at h ⊢
  rw [importTarget, importTargetChars, if_pos hdot]
  rfl

/-! ## Inner classes -/

/-- The part of a name before its inner classes. -/
def outermost (className : String) : String :=
  String.ofList (className.toList.takeWhile (· ≠ '$'))

theorem takeWhile_dotInner {name : List Char} (h : '.' ∉ name) :
    (dotInner name).takeWhile (· ≠ '.') = name.takeWhile (· ≠ '$') := by
  induction name with
  | nil => rfl
  | cons c name ih =>
    obtain ⟨hc, hname⟩ := not_or.1 (mem_cons.not.1 h)
    by_cases hdollar : c = '$'
    · simp [dotInner, hdollar]
    · simpa [dotInner, hdollar, Ne.symm hc] using ih hname

variable {className package : String}

theorem importTarget_eq_outermost (hdot : '.' ∈ className.toList)
    (hbracket : className.toList.head? ≠ some '[') :
    importTarget className = some (outermost className) := by
  rw [importTarget, importTargetChars, if_neg (by simpa using hdot), if_neg hbracket]
  rfl

theorem label_of_package? (hpackage : Context.package? className = some package)
    (hbracket : className.toList.head? ≠ some '[') :
    ∃ simple, className = package ++ "." ++ simple ∧ '.' ∉ simple.toList ∧
      label className = String.ofList (dotInner simple.toList) := by
  obtain ⟨simple, rfl, hdot⟩ := Context.package?_eq_some_iff.1 hpackage
  refine ⟨simple, rfl, hdot, ?_⟩
  have hkept := forall_ne_of_not_mem (mt mem_reverse.1 hdot)
  have hsimple : withoutPackage (package ++ "." ++ simple).toList = simple.toList := by
    unfold withoutPackage
    rw [String.toList_append, String.toList_append, reverse_append, reverse_append,
      takeWhile_append_of_pos hkept]
    simp
  rw [label, labelChars, if_neg (by simp), hsimple]
  intro rest hrest
  rw [hrest] at hbracket
  exact hbracket rfl

/-- The outermost class is in the package, and the label begins with its name. -/
theorem outermost_eq (hpackage : Context.package? className = some package)
    (hdollar : '$' ∉ package.toList) (hbracket : className.toList.head? ≠ some '[') :
    outermost className = package ++ "." ++ Context.outerName (label className) := by
  obtain ⟨simple, rfl, hdot, hlabel⟩ := label_of_package? hpackage hbracket
  have hkept : ∀ c ∈ package.toList ++ ['.'], decide (c ≠ '$') = true :=
    forall_ne_of_not_mem (by simpa using hdollar)
  refine String.toList_inj.1 ?_
  rw [outermost, Context.outerName, hlabel, String.toList_ofList, String.toList_ofList,
    takeWhile_dotInner hdot, String.toList_append, String.toList_append, takeWhile_append_of_pos]
  · simp
  · simpa using hkept

/-- An array of any number of dimensions has its descriptor as its check, the label of its elements with
as many pairs of brackets, and the import of its elements; primitive ones need none. A class in a package
is imported as its outermost class, whose name in the package is the one that the label begins with. -/
theorem arrays_and_inner_classes_are_named {dimensions : Nat} (hdimensions : 0 < dimensions) :
    (∀ element position,
      check (descriptor dimensions element) position = .one (descriptor dimensions element)) ∧
    (∀ className,
      label (descriptor dimensions (classCode className)) = label className ++ times dimensions "[]" ∧
      qualifiedLabel (descriptor dimensions (classCode className)) =
        qualifiedLabel className ++ times dimensions "[]" ∧
      (className ≠ "" → ';' ∉ className.toList →
        importTarget (descriptor dimensions (classCode className)) = importTarget className)) ∧
    (∀ code primitive, primitiveName? code = some primitive →
      label (descriptor dimensions (String.singleton code)) = primitive ++ times dimensions "[]" ∧
      qualifiedLabel (descriptor dimensions (String.singleton code)) =
        primitive ++ times dimensions "[]" ∧
      importTarget (descriptor dimensions (String.singleton code)) = none) ∧
    ∀ className package, Context.package? className = some package → '$' ∉ package.toList →
      className.toList.head? ≠ some '[' →
      importTarget className = some (outermost className) ∧
        outermost className = package ++ "." ++ Context.outerName (label className) := by
  refine ⟨check_descriptor hdimensions, fun className => ?_, fun code primitive h => ?_, ?_⟩
  · obtain ⟨hlabel, hqualified⟩ := label_array hdimensions className
    exact ⟨hlabel, hqualified, importTarget_array hdimensions⟩
  · obtain ⟨hlabel, hqualified⟩ := label_primitiveArray hdimensions h
    exact ⟨hlabel, hqualified, importTarget_primitiveArray dimensions h⟩
  · intro className package hpackage hdollar hbracket
    refine ⟨importTarget_eq_outermost ?_ hbracket, outermost_eq hpackage hdollar hbracket⟩
    obtain ⟨simple, rfl, -⟩ := Context.package?_eq_some_iff.1 hpackage
    simp

/-- An array of arrays of an inner class needs the class around it. -/
theorem inner_class_array_is_named :
    label "[[Lcom.example.Arm$Mode;" = label "com.example.Arm$Mode" ++ "[][]" ∧
      importTarget "[[Lcom.example.Arm$Mode;" = some "com.example.Arm" ∧
      "com.example.Arm" = "com.example" ++ "." ++ Context.outerName (label "com.example.Arm$Mode") := by
  obtain ⟨-, harray, -, hinner⟩ := @arrays_and_inner_classes_are_named 2 (by decide)
  obtain ⟨hlabel, -, himport⟩ := harray "com.example.Arm$Mode"
  have hpackage : Context.package? "com.example.Arm$Mode" = some "com.example" := by decide
  obtain ⟨htarget, houter⟩ := hinner "com.example.Arm$Mode" "com.example" hpackage (by decide) (by decide)
  exact ⟨hlabel, (himport (by decide) (by decide)).trans htarget, houter⟩

end RobotBlocks.ClassType
