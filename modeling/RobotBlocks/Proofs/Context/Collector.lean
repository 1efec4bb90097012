import Mathlib.Logic.Basic
import RobotBlocks.Proofs.Context.Operations
import RobotBlocks.Proofs.Dict
import RobotBlocks.Proofs.Text.ByteOrder
import RobotBlocks.Proofs.Yields

/-!
# What is collected

What a context has collected is a function of the operations on it (`Collects`): the imports are the
classes that were passed on and need an import, and the declarations are the first ones of their keys.
Each operation keeps that (`Collects.apply`), so it holds after any run (`Collects.after`).

Since imports are listed in order, they do not depend on the order of the operations. Declarations do:
they are listed as they came.
-/

set_option autoImplicit false

namespace RobotBlocks

open List

/-! ## First entries -/

section

variable {κ κ' α : Type} [DecidableEq κ] [DecidableEq κ']
variable {entries : List (κ × α)}

/-- The first entry of every key, in the order of the list. -/
def firsts : List (κ × α) → List (κ × α)
  | [] => []
  | entry :: rest => entry :: (firsts rest).filter (fun later => later.1 ≠ entry.1)

theorem mem_keys_firsts {key : κ} :
    key ∈ (firsts entries).map Prod.fst ↔ key ∈ entries.map Prod.fst := by
  induction entries with
  | nil => rfl
  | cons entry rest ih =>
    rw [firsts, map_cons, map_cons, mem_cons, mem_cons, ← ih]
    by_cases hkey : key = entry.1
    · simp [hkey]
    · simp only [hkey, false_or, mem_map, mem_filter]
      constructor
      · rintro ⟨later, ⟨hlater, -⟩, rfl⟩
        exact ⟨later, hlater, rfl⟩
      · rintro ⟨later, hlater, rfl⟩
        exact ⟨later, ⟨hlater, by simpa using hkey⟩, rfl⟩

theorem firsts_concat_of_not_mem (entry : κ × α) (h : entry.1 ∉ entries.map Prod.fst) :
    firsts (entries ++ [entry]) = firsts entries ++ [entry] := by
  induction entries with
  | nil => rfl
  | cons first rest ih =>
    rw [map_cons, mem_cons, not_or] at h
    rw [cons_append, firsts, ih h.2, firsts, filter_append, cons_append,
      filter_cons_of_pos (by simpa using h.1), filter_nil]

theorem firsts_concat_of_mem (entry : κ × α) (h : entry.1 ∈ entries.map Prod.fst) :
    firsts (entries ++ [entry]) = firsts entries := by
  induction entries with
  | nil => simp at h
  | cons first rest ih =>
    rw [cons_append, firsts, firsts]
    by_cases hrest : entry.1 ∈ rest.map Prod.fst
    · rw [ih hrest]
    · have hfirst : entry.1 = first.1 := by
        rw [map_cons, mem_cons] at h
        exact h.resolve_right hrest
      rw [firsts_concat_of_not_mem entry hrest, filter_append,
        filter_cons_of_neg (by simp [hfirst]), filter_nil, append_nil]

/-- Entries of one kind can be chosen before or after: `kind` gives the keys of the kind a name of
their own. -/
theorem filterMap_firsts {kind : κ → Option κ'}
    (hinjective : ∀ a b name, kind a = some name → kind b = some name → a = b)
    (entries : List (κ × α)) :
    (firsts entries).filterMap (fun entry => (kind entry.1).map (·, entry.2)) =
      firsts (entries.filterMap (fun entry => (kind entry.1).map (·, entry.2))) := by
  induction entries with
  | nil => rfl
  | cons entry rest ih =>
    cases hkind : kind entry.1 with
    | none =>
      rw [firsts, filterMap_cons_none (by simp [hkind]), filterMap_cons_none (by simp [hkind]),
        ← ih, filterMap_filter]
      congr 1
      funext later
      by_cases hlater : later.1 = entry.1
      · simp [hlater, hkind]
      · simp [hlater]
    | some name =>
      rw [firsts, filterMap_cons_some (by rw [hkind]; rfl),
        filterMap_cons_some (by rw [hkind]; rfl), firsts, ← ih, filter_filterMap,
        filterMap_filter]
      congr 2
      funext later
      cases hlater : kind later.1 with
      | none => simp
      | some other =>
        have hsame : later.1 = entry.1 ↔ other = name := by
          constructor
          · intro heq
            rw [heq, hkind] at hlater
            exact (Option.some.inj hlater).symm
          · rintro rfl
            exact hinjective _ _ _ hlater hkind
        by_cases hname : other = name <;> simp [hsame, hname, Option.filter]

end

/-- The identifier of a field that is declared. -/
def DeclarationKey.field? : DeclarationKey → Option String
  | field identifier => some identifier
  | assignment _ => none

def DeclarationKey.assignment? : DeclarationKey → Option String
  | field _ => none
  | assignment identifier => some identifier

namespace Context

variable {context : Context} {className : String}

/-! ## What operations ask for -/

namespace Operation

/-- The class that an operation passes on: itself, as what a class type needs, or as a known one. -/
def className? : Operation → Option String
  | registerImport className => some className
  | importClassType classType => ClassType.importTarget classType
  | importKnown simple => knownClass? (outerName simple)
  | _ => none

def declaration? : Operation → Option (DeclarationKey × String)
  | registerDeclaration key text => some (key, text)
  | _ => none

/-- The name and the text of the declaration of a kind that an operation asks for. -/
def declared? (kind : DeclarationKey → Option String) (operation : Operation) :
    Option (String × String) :=
  operation.declaration?.bind fun entry => (kind entry.1).map (·, entry.2)

end Operation

section

open DeclarationKey

theorem field?_injective (a b : DeclarationKey) (name : String) (ha : a.field? = some name)
    (hb : b.field? = some name) : a = b := by
  cases a <;> cases b <;> simp_all [field?]

theorem assignment?_injective (a b : DeclarationKey) (name : String) (ha : a.assignment? = some name)
    (hb : b.assignment? = some name) : a = b := by
  cases a <;> cases b <;> simp_all [assignment?]

theorem fieldText?_eq : fieldText? = fun entry => (field? entry.1).map fun _ => entry.2 := by
  funext ⟨key, text⟩
  cases key <;> rfl

theorem assignmentText?_eq :
    assignmentText? = fun entry => (assignment? entry.1).map fun _ => entry.2 := by
  funext ⟨key, text⟩
  cases key <;> rfl

end

/-- A class is in a package, and that is neither `java.lang` nor the program's own. -/
def NeedsImport (own : Option String) (className : String) : Prop :=
  ∃ package simple, className = package ++ "." ++ simple ∧ '.' ∉ simple.toList ∧
    package ≠ "java.lang" ∧ own ≠ some package

theorem package?_of_toList_eq {package simple : List Char}
    (h : className.toList = package ++ '.' :: simple) (hsimple : '.' ∉ simple) :
    package? className = some (String.ofList package) := by
  have hreverse : className.toList.reverse = simple.reverse ++ '.' :: package.reverse := by
    rw [h, reverse_append, reverse_cons, append_assoc, singleton_append]
  have hdrop : className.toList.reverse.dropWhile (· ≠ '.') = '.' :: package.reverse := by
    rw [hreverse, dropWhile_append_of_pos]
    · rfl
    · intro c hc
      have hne : c ≠ '.' := fun hdot => hsimple (mem_reverse.1 (hdot ▸ hc))
      simpa using hne
  unfold package?
  rw [if_pos (by simp [h]), hdrop, drop_one, tail_cons, reverse_reverse]

variable {className : String}

/-- The package ends at the last dot. -/
theorem package?_eq_some_iff {package : String} :
    package? className = some package ↔
      ∃ simple, className = package ++ "." ++ simple ∧ '.' ∉ simple.toList := by
  constructor
  · intro h
    have hdot : '.' ∈ className.toList := by
      refine Decidable.byContradiction fun hdot => ?_
      rw [package?, if_neg hdot] at h
      cases h
    obtain ⟨simple, front, hsplit, hsimple⟩ := eq_append_cons_of_mem (mem_reverse.2 hdot)
    have hchars : className.toList = front.reverse ++ '.' :: simple.reverse := by
      have hback := congrArg List.reverse hsplit
      simpa using hback
    rw [package?_of_toList_eq hchars (by simpa using hsimple), Option.some.injEq] at h
    refine ⟨String.ofList simple.reverse, String.toList_inj.1 ?_, by simpa using hsimple⟩
    rw [hchars, ← h]
    simp
  · rintro ⟨simple, rfl, hsimple⟩
    have hchars : (package ++ "." ++ simple).toList = package.toList ++ '.' :: simple.toList := by simp
    rw [package?_of_toList_eq hchars hsimple, String.ofList_toList]

theorem needsImport_iff :
    NeedsImport context.ownPackage className ↔
      ∃ package, package? className = some package ∧ context.importsFrom package = true := by
  unfold NeedsImport importsFrom
  constructor
  · rintro ⟨package, simple, hname, hsimple, hjava, hown⟩
    exact ⟨package, package?_eq_some_iff.2 ⟨simple, hname, hsimple⟩, by simp [hjava, hown]⟩
  · rintro ⟨package, hpackage, hfrom⟩
    obtain ⟨simple, hname, hsimple⟩ := package?_eq_some_iff.1 hpackage
    simp only [Bool.and_eq_true, decide_eq_true_eq, ne_eq] at hfrom
    exact ⟨package, simple, hname, hsimple, hfrom.1, hfrom.2⟩

/-! ## What one operation does -/

theorem isSome_fst_registerImport :
    (context.registerImport className).1.isSome = true ↔
      NeedsImport context.ownPackage className ∧ context.imports.contains className = false := by
  rw [needsImport_iff]
  unfold registerImport
  cases hpackage : package? className with
  | none => simp
  | some package =>
    dsimp only
    by_cases hfrom : context.importsFrom package = true
    · cases hcontains : context.imports.contains className <;> simp [hfrom]
    · simp [hfrom]

theorem contains_registerImport {other : String} :
    (context.registerImport className).2.imports.contains other = true ↔
      context.imports.contains other = true ∨
        other = className ∧ NeedsImport context.ownPackage className := by
  rw [needsImport_iff]
  unfold registerImport
  cases hpackage : package? className with
  | none => simp
  | some package =>
    dsimp only
    by_cases hfrom : context.importsFrom package = true
    · cases hcontains : context.imports.contains className with
      | true =>
        have himp : other = className → context.imports.contains other = true := by
          rintro rfl
          exact hcontains
        simpa [hfrom] using himp
      | false =>
        by_cases hother : other = className <;> simp [hfrom, hother, Dict.contains]
    · simp [hfrom]

/-- What a context holds besides imports stays as it is when a class is imported. -/
theorem rest_registerImport (context : Context) (className : String) :
    (context.registerImport className).2 =
      { context with imports := (context.registerImport className).2.imports } := by
  unfold registerImport
  split
  · rfl
  · split <;> rfl

theorem fst_registerDeclaration {key : DeclarationKey} {text : String} :
    (context.registerDeclaration key text).1 = true ↔ key ∉ context.declarations.map Prod.fst := by
  unfold registerDeclaration
  split
  all_goals
    rename_i hany
    simpa using hany

theorem declarations_registerDeclaration (context : Context) (key : DeclarationKey) (text : String) :
    (context.registerDeclaration key text).2 =
      { context with
        declarations := if key ∈ context.declarations.map Prod.fst then context.declarations
          else context.declarations ++ [(key, text)] } := by
  have hany : context.declarations.any (fun entry => entry.1 = key) = true ↔
      key ∈ context.declarations.map Prod.fst := by simp
  unfold registerDeclaration
  by_cases hkey : key ∈ context.declarations.map Prod.fst
  · rw [if_pos (hany.2 hkey), if_pos hkey]
  · rw [if_neg (hany.not.2 hkey), if_neg hkey]

/-! ## Runs -/

/-- A context of a package has collected what operations asked for. -/
structure Collects (own : Option String) (operations : List Operation) (context : Context) : Prop where
  ownPackage_eq : context.ownPackage = own
  contains_iff (className : String) : context.imports.contains className = true ↔
    NeedsImport own className ∧ ∃ operation ∈ operations, operation.className? = some className
  declarations_eq : context.declarations = firsts (operations.filterMap Operation.declaration?)

theorem collects_nil (own : Option String) : Collects own [] { ownPackage := own } :=
  ⟨rfl, fun className => by simp [Dict.contains, EmptyCollection.emptyCollection], rfl⟩

namespace Collects

variable {own : Option String} {operations : List Operation} {context : Context}
variable (h : Collects own operations context)

include h

variable {operation : Operation}

/-- The operation that passes on a class adds it if it needs an import. -/
theorem registerImport (hclass : operation.className? = some className)
    (hdeclaration : operation.declaration? = none) :
    Collects own (operations ++ [operation]) (context.registerImport className).2 := by
  rw [rest_registerImport]
  refine ⟨h.ownPackage_eq, fun other => ?_, ?_⟩
  · dsimp only
    rw [contains_registerImport, h.contains_iff, h.ownPackage_eq]
    simp only [mem_append, mem_singleton]
    constructor
    · rintro (⟨hneeds, earlier, hearlier, hother⟩ | ⟨rfl, hneeds⟩)
      · exact ⟨hneeds, earlier, .inl hearlier, hother⟩
      · exact ⟨hneeds, operation, .inr rfl, hclass⟩
    · rintro ⟨hneeds, earlier, hearlier | rfl, hother⟩
      · exact .inl ⟨hneeds, earlier, hearlier, hother⟩
      · obtain rfl : className = other := by simpa [hclass] using hother
        exact .inr ⟨rfl, hneeds⟩
  · simp [h.declarations_eq, hdeclaration]

/-- An operation that passes on no class and asks for no declaration changes nothing that counts. -/
theorem ignore (hclass : operation.className? = none)
    (hdeclaration : operation.declaration? = none) (names : NameTable) :
    Collects own (operations ++ [operation]) { context with names } := by
  refine ⟨h.ownPackage_eq, fun other => ?_, ?_⟩
  · simp [h.contains_iff, or_and_right, exists_or, hclass]
  · simp [h.declarations_eq, hdeclaration]

theorem registerDeclaration (key : DeclarationKey) (text : String) :
    Collects own (operations ++ [.registerDeclaration key text])
      (context.registerDeclaration key text).2 := by
  have hkeys : key ∈ context.declarations.map Prod.fst ↔
      key ∈ (operations.filterMap Operation.declaration?).map Prod.fst := by
    rw [h.declarations_eq, mem_keys_firsts]
  rw [declarations_registerDeclaration]
  refine ⟨h.ownPackage_eq, fun other => ?_, ?_⟩
  · simp [h.contains_iff, or_and_right, exists_or, Operation.className?]
  · rw [filterMap_append]
    dsimp only
    by_cases hkey : key ∈ context.declarations.map Prod.fst
    · rw [if_pos hkey, h.declarations_eq]
      exact (firsts_concat_of_mem (key, text) (hkeys.1 hkey)).symm
    · rw [if_neg hkey, h.declarations_eq]
      exact (firsts_concat_of_not_mem (key, text) (hkeys.not.1 hkey)).symm

theorem apply (operation : Operation) :
    Collects own (operations ++ [operation]) (operation.apply context).2 := by
  cases operation with
  | identifierFor space name | distinctName base => exact h.ignore rfl rfl _
  | registerImport className => exact h.registerImport rfl rfl
  | importClassType classType =>
    show Collects _ _ (context.importClassType classType).2
    unfold importClassType
    have hclass : (Operation.importClassType classType).className? = ClassType.importTarget classType :=
      rfl
    cases htarget : ClassType.importTarget classType with
    | none => exact h.ignore (hclass.trans htarget) rfl context.names
    | some className => exact h.registerImport (hclass.trans htarget) rfl
  | importKnown simple =>
    have hclass : (Operation.importKnown simple).className? = knownClass? (outerName simple) := rfl
    show Collects _ _ (((context.importKnown simple).map Prod.snd).getD context)
    rw [importKnown_eq]
    cases hknown : knownClass? (outerName simple) with
    | none => exact h.ignore (hclass.trans hknown) rfl context.names
    | some className => exact h.registerImport (hclass.trans hknown) rfl
  | registerDeclaration key text => exact h.registerDeclaration key text

theorem after (more : List Operation) : Collects own (operations ++ more) (context.after more) := by
  induction more generalizing operations context with
  | nil =>
    rw [append_nil]
    exact h
  | cons operation rest ih =>
    have hrest := ih (h.apply operation)
    rw [append_assoc, singleton_append] at hrest
    exact hrest

/-- The texts of one kind of declarations are the first texts that were registered for their names. -/
theorem filterMap_declarations {kind : DeclarationKey → Option String}
    (hinjective : ∀ a b name, kind a = some name → kind b = some name → a = b) :
    context.declarations.filterMap (fun entry => (kind entry.1).map fun _ => entry.2) =
      (firsts (operations.filterMap (Operation.declared? kind))).map Prod.snd := by
  have hdeclared : operations.filterMap (Operation.declared? kind) =
      (operations.filterMap Operation.declaration?).filterMap
        (fun entry => (kind entry.1).map (·, entry.2)) := filterMap_filterMap.symm
  rw [hdeclared, ← filterMap_firsts hinjective, h.declarations_eq, map_filterMap]
  simp only [Option.map_map, Function.comp_def]

theorem imports_eq_of_perm {others : List Operation} {context' : Context}
    (h' : Collects own others context') (hperm : others.Perm operations) :
    context'.imports = context.imports := by
  refine Dict.ext_get? fun className => ?_
  have hsame : context'.imports.contains className = true ↔ context.imports.contains className = true := by
    rw [h.contains_iff, h'.contains_iff]
    simp only [hperm.mem_iff]
  unfold Dict.contains at hsame
  cases hget : context.imports.get? className <;> cases hget' : context'.imports.get? className <;>
    simp_all

end Collects

/-- The context of a program in a package after some operations. -/
def gathered (own : Option String) (operations : List Operation) : Context :=
  after { ownPackage := own } operations

theorem collects_gathered (own : Option String) (operations : List Operation) :
    Collects own operations (gathered own operations) :=
  (collects_nil own).after operations

/-- Only the import of an unknown class fails, and then nothing has happened. -/
theorem fails_importKnown_iff {simple : String} {draft after : Draft} {fault : Fault} :
    Fails (Render.importKnown simple) draft fault after ↔
      knownClass? (outerName simple) = none ∧ fault = .noKnownClass simple ∧ after = draft := by
  rw [Render.importKnown_eq]
  cases knownClass? (outerName simple) with
  | none =>
    refine fails_throw.trans ⟨?_, ?_⟩
    · rintro ⟨rfl, rfl⟩
      exact ⟨rfl, rfl, rfl⟩
    · rintro ⟨-, rfl, rfl⟩
      exact ⟨rfl, rfl⟩
  | some className =>
    refine ⟨fun h => ?_, fun h => absurd h.1 (by simp)⟩
    rcases fails_bind.1 h with hadd | ⟨added, middle, -, hrecord⟩
    · exact absurd hadd fails_modifyGet
    · cases added <;> simp [Render.recordImport, Render.record] at hrecord

/-- Whatever was done to a context of a package: its imports increase in the order of their bytes, they
are the classes that were passed on and need an import, in whatever order that was done; its fields and
assignments are the first texts of their names, in the order of these; registering tells whether
something is new and counts; and only the import of an unknown class fails, which changes nothing. -/
theorem collects_what_is_registered (own : Option String) (operations : List Operation) :
    (gathered own operations).collected.imports.Pairwise (fun a b => Text.bytes a < Text.bytes b) ∧
    (∀ className, className ∈ (gathered own operations).collected.imports ↔
      NeedsImport own className ∧ ∃ operation ∈ operations, operation.className? = some className) ∧
    (∀ others, others.Perm operations →
      (gathered own others).collected.imports = (gathered own operations).collected.imports) ∧
    (gathered own operations).collected.fields =
      (firsts (operations.filterMap (Operation.declared? DeclarationKey.field?))).map Prod.snd ∧
    (gathered own operations).collected.assignments =
      (firsts (operations.filterMap (Operation.declared? DeclarationKey.assignment?))).map Prod.snd ∧
    (∀ className, ((gathered own operations).registerImport className).1.isSome = true ↔
      NeedsImport own className ∧ ∀ operation ∈ operations, operation.className? ≠ some className) ∧
    (∀ key text, ((gathered own operations).registerDeclaration key text).1 = true ↔
      ∀ operation ∈ operations, ∀ earlier, operation.declaration? ≠ some (key, earlier)) ∧
    (∀ simple draft fault after, Fails (Render.importKnown simple) draft fault after ↔
      knownClass? (outerName simple) = none ∧ fault = .noKnownClass simple ∧ after = draft) := by
  have h := collects_gathered own operations
  refine ⟨?_, fun className => ?_, fun others hperm => ?_, ?_, ?_, fun className => ?_,
    fun key text => ?_, fun simple draft fault after => fails_importKnown_iff⟩
  · exact (Dict.pairwise_keys _).imp Text.bytes_lt_bytes
  · exact Dict.mem_keys_iff.trans (h.contains_iff className)
  · exact congrArg Dict.keys (h.imports_eq_of_perm (collects_gathered own others) hperm)
  · rw [← h.filterMap_declarations field?_injective, collected, fieldText?_eq]
  · rw [← h.filterMap_declarations assignment?_injective, collected, assignmentText?_eq]
  · rw [isSome_fst_registerImport, ← Bool.not_eq_true, h.contains_iff, h.ownPackage_eq]
    simp only [not_and, not_exists]
    constructor
    · rintro ⟨hneeds, hnew⟩
      exact ⟨hneeds, hnew hneeds⟩
    · rintro ⟨hneeds, hnew⟩
      exact ⟨hneeds, fun _ => hnew⟩
  · rw [fst_registerDeclaration, h.declarations_eq, mem_keys_firsts]
    simp only [mem_map, mem_filterMap]
    constructor
    · intro hnew operation hoperation earlier hdeclaration
      exact hnew ⟨(key, earlier), ⟨operation, hoperation, hdeclaration⟩, rfl⟩
    · rintro hnew ⟨⟨_, earlier⟩, ⟨operation, hoperation, hdeclaration⟩, rfl⟩
      exact hnew operation hoperation earlier hdeclaration

end Context

end RobotBlocks
