import RobotBlocks.Proofs.Context.Identifiers
import RobotBlocks.Proofs.Numeral.Literal

/-!
# The identifiers of variables are words

Whatever a context is asked for, the identifiers of the variables are words of the grammar and none
of them is reserved (`variablesAreWords_run`). What is left of a name are characters of identifiers,
no digit first, and a number behind it changes neither. The identifiers of devices are not looked at:
they may contain the name of a class.

A table `Extends` another one if it has all its identifiers.
-/

set_option autoImplicit false

namespace RobotBlocks

open Grammar

namespace Identifier

/-- What is left of a name is a word unless nothing is left. -/
theorem isWord_ofName {name : String} (h : (ofName name).isEmpty = false) :
    IsWord (ofName name).toList := by
  have hchars : ∀ c ∈ name.toList.filter isIdentifierChar, isIdentifierChar c = true :=
    fun c hc => (List.mem_filter.1 hc).2
  have hlist : (ofName name).toList = ofNameChars name.toList := by simp [ofName]
  rw [hlist]
  refine ⟨fun hnil => ?_, ?_, ?_⟩
  · simp [ofName, hnil] at h
  · unfold ofNameChars
    simp only
    split
    · intro c hc
      rcases List.mem_cons.1 hc with rfl | hc
      · decide
      · exact hchars c hc
    · exact hchars
  · unfold ofNameChars
    simp only
    split
    · simp
    · next hdigit =>
      intro c hc
      simpa [Option.mem_def.1 hc] using hdigit

end Identifier

namespace NameTable

theorem isWord_numbered {base : String} (h : IsWord base.toList) (number : Nat) :
    IsWord (numbered base number).toList := by
  unfold numbered
  split
  · exact h
  · have hdigits := isDigits_toString_nat number
    rw [String.toList_append]
    refine ⟨by simp [h.ne_nil], fun c hc => ?_, fun c hc => ?_⟩
    · rcases List.mem_append.1 hc with hc | hc
      · exact h.chars c hc
      · exact isIdentifierChar_of_isDigit (hdigits.2 c hc)
    · rw [List.head?_append_of_ne_nil _ h.ne_nil] at hc
      exact h.head c hc

/-- The identifiers of the variables are words, and none of them is reserved. -/
def VariablesAreWords (table : NameTable) : Prop :=
  ∀ name identifier, table.assigned? .variableNames name = some identifier →
    IsWord identifier.toList ∧ Identifier.isReserved identifier = false

theorem isWord_baseFor_variable (table : NameTable) (name : String) :
    IsWord (table.baseFor .variableNames name).toList := by
  unfold baseFor
  simp only
  split
  · decide
  · next hempty => exact Identifier.isWord_ofName (by simpa using hempty)

theorem variablesAreWords_identifierFor {table : NameTable} (h : table.VariablesAreWords)
    (space : Namespace) (name : String) : (table.identifierFor space name).2.VariablesAreWords := by
  intro other identifier hother
  rcases assigned?_identifierFor hother with hother | ⟨rfl, rfl, hnew, rfl⟩
  · exact h other identifier hother
  · rw [identifierFor_of_new hnew]
    refine ⟨isWord_numbered (isWord_baseFor_variable table other) _, ?_⟩
    exact ((busy_eq_false_iff _ _).1 (not_busy_freeNumber table _ 1)).1

/-- A table has all identifiers of another one. -/
def Extends (after before : NameTable) : Prop :=
  ∀ space name identifier, before.assigned? space name = some identifier →
    after.assigned? space name = some identifier

theorem extends_refl (table : NameTable) : table.Extends table := fun _ _ _ h => h

theorem Extends.trans {first second third : NameTable} (h : third.Extends second)
    (h' : second.Extends first) : third.Extends first :=
  fun space name identifier hassigned => h space name identifier (h' space name identifier hassigned)

/-- A request for an identifier gives the one that the name has from then on. -/
theorem identifierFor_spec (table : NameTable) (space : Namespace) (name : String) :
    (table.identifierFor space name).2.Extends table ∧
      (table.identifierFor space name).2.assigned? space name =
        some (table.identifierFor space name).1 := by
  rcases identifierFor_cases table space name with
    ⟨identifier, hassigned, heq⟩ | ⟨identifier, hassigned, -, heq⟩
  · rw [heq]
    exact ⟨extends_refl table, hassigned⟩
  · rw [heq]
    refine ⟨fun other name' found hfound => ?_, ?_⟩
    · rw [assigned?_cons]
      split
      · next hkey =>
        cases hkey
        simp [hassigned] at hfound
      · exact hfound
    · rw [assigned?_cons, if_pos rfl]

end NameTable

namespace Context

theorem variablesAreWords_run (ownPackage : Option String) (operations : List Operation) :
    (run { ownPackage } operations).2.names.VariablesAreWords := by
  refine names_after (fun _ space name h => ?_) (fun _ base h => ?_) operations ?_
  · exact NameTable.variablesAreWords_identifierFor h space name
  · exact h
  · simp [NameTable.VariablesAreWords, NameTable.assigned?]

end Context

end RobotBlocks
