import RobotBlocks.Proofs.Context.Collector
import RobotBlocks.Proofs.Lists

/-!
# Imports of known classes

A context provides for a simple name if the known class of that name, should there be one, is imported
or is of the program's own package. The class is imported once it was asked for, and no operation takes
an import back (`Context.keeps_apply`), so that names stay provided for.
-/

set_option autoImplicit false

namespace RobotBlocks

namespace Context

/-- The class that a simple name stands for, if there is one, is imported or a class of the program's
own package. -/
def Provides (context : Context) (simple : String) : Prop :=
  ∀ className, knownClass? simple = some className →
    className ∈ context.collected.imports ∨ package? className = context.ownPackage

variable {simple : String}

theorem Provides.of_unknown {context : Context} (h : knownClass? simple = none) :
    context.Provides simple := by
  intro className hknown
  rw [h] at hknown
  cases hknown

theorem outerName_of_not_mem {name : String} (hdot : '.' ∉ name.toList) : outerName name = name := by
  refine String.toList_inj.1 ?_
  rw [outerName, String.toList_ofList, List.takeWhile_eq_self_iff.2 (forall_ne_of_not_mem hdot)]

theorem not_mem_outerName (name : String) : '.' ∉ (outerName name).toList := by
  intro hdot
  rw [outerName, String.toList_ofList] at hdot
  simpa using List.mem_takeWhile_imp hdot

/-- A known class that is not an inner one is in a package other than `java.lang`. -/
theorem package?_of_knownClass? {className : String} (hdot : '.' ∉ simple.toList)
    (h : knownClass? simple = some className) :
    ∃ package, package? className = some package ∧ package ≠ "java.lang" ∧
      className = package ++ "." ++ simple := by
  obtain ⟨entry, hentry, rfl⟩ := Option.map_eq_some_iff.1 h
  have hpackages : ∀ entry ∈ knownPackages, entry.1 ≠ "java.lang" := by decide
  exact ⟨entry.1, package?_eq_some_iff.2 ⟨simple, rfl, hdot⟩,
    hpackages entry (List.mem_of_find?_eq_some hentry), rfl⟩

/-- A class that was registered is imported unless it needs no import. -/
theorem provides_registerImport (context : Context) {className : String}
    (hdot : '.' ∉ simple.toList) (h : knownClass? simple = some className) :
    (context.registerImport className).2.Provides simple := by
  intro found hfound
  obtain rfl := Option.some.inj (h.symm.trans hfound)
  obtain ⟨package, hpackage, hjava, hname⟩ := package?_of_knownClass? hdot h
  by_cases hown : context.ownPackage = some package
  · right
    rw [rest_registerImport]
    exact hpackage.trans hown.symm
  · left
    refine Dict.mem_keys_iff.2 (contains_registerImport.2 (.inr ⟨rfl, ?_⟩))
    exact ⟨package, simple, hname, hdot, hjava, hown⟩

/-- A context is for the package of an earlier one and has all its imports. -/
structure Keeps (before after : Context) : Prop where
  ownPackage_eq : after.ownPackage = before.ownPackage
  imports_mem : ∀ className ∈ before.collected.imports, className ∈ after.collected.imports

theorem keeps_refl (context : Context) : Keeps context context := ⟨rfl, fun _ h => h⟩

theorem Keeps.trans {first second third : Context} (h : Keeps first second) (h' : Keeps second third) :
    Keeps first third :=
  ⟨h'.ownPackage_eq.trans h.ownPackage_eq,
    fun className hmem => h'.imports_mem className (h.imports_mem className hmem)⟩

theorem keeps_registerImport (context : Context) (className : String) :
    Keeps context (context.registerImport className).2 where
  ownPackage_eq := by rw [rest_registerImport]
  imports_mem other hother :=
    Dict.mem_keys_iff.2 (contains_registerImport.2 (.inl (Dict.mem_keys_iff.1 hother)))

/-- No operation takes an import back. -/
theorem keeps_apply (operation : Operation) (context : Context) :
    Keeps context (operation.apply context).2 := by
  cases operation with
  | identifierFor space name | distinctName base => exact ⟨rfl, fun _ h => h⟩
  | registerImport className => exact keeps_registerImport context className
  | importClassType classType =>
    show Keeps context (context.importClassType classType).2
    unfold importClassType
    cases ClassType.importTarget classType with
    | none => exact keeps_refl context
    | some className => exact keeps_registerImport context className
  | importKnown simple =>
    show Keeps context (((context.importKnown simple).map Prod.snd).getD context)
    rw [importKnown_eq]
    cases knownClass? (outerName simple) with
    | none => exact keeps_refl context
    | some className => exact keeps_registerImport context className
  | registerDeclaration key text =>
    show Keeps context (context.registerDeclaration key text).2
    rw [declarations_registerDeclaration]
    exact ⟨rfl, fun _ h => h⟩

theorem keeps_after (context : Context) (operations : List Operation) :
    Keeps context (context.after operations) := by
  induction operations generalizing context with
  | nil => exact keeps_refl context
  | cons operation rest ih => exact (keeps_apply operation context).trans (ih _)

end Context

end RobotBlocks
