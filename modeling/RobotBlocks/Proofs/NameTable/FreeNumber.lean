import Mathlib.Data.List.Nodup
import Mathlib.Data.List.Perm.Subperm
import Mathlib.Tactic.Tauto
import RobotBlocks.NameTable
import Std.Data.String.ToNat

/-!
# The search for a free number

`firstFree` looks at a bounded number of candidates and gives the next one without a look if all of
them are busy. The bound of a table is the number of its busy identifiers, and candidates with
different numbers are different, so that the search always ends at a free candidate
(`not_busy_freeNumber`), and all candidates before it are busy (`busy_of_lt_freeNumber`).
-/

set_option autoImplicit false

namespace RobotBlocks.NameTable

open List

variable {base : String}

theorem append_toString_injective (stem : String) :
    Function.Injective fun i : Nat => stem ++ toString i := by
  intro i j h
  have hchars := congrArg String.toList h
  simp only [String.toList_append] at hchars
  exact Nat.repr_inj.1 (String.toList_inj.1 (append_cancel_left hchars))

theorem toList_toString_nat_ne_nil (i : Nat) : (toString i).toList ≠ [] := by
  simp

/-- A base is not a candidate with a number behind it. -/
theorem append_toString_ne (base : String) (i : Nat) : base ++ toString i ≠ base := by
  intro h
  have hchars := congrArg String.toList h
  rw [String.toList_append] at hchars
  exact toList_toString_nat_ne_nil i (append_right_eq_self.1 hchars)

theorem numbered_injective {i j : Nat} (h : numbered base i = numbered base j) : i = j := by
  unfold numbered at h
  split at h
  · split at h
    · omega
    · exact absurd h.symm (append_toString_ne base j)
  · split at h
    · exact absurd h (append_toString_ne base i)
    · exact append_toString_injective base h

/-- The identifiers that a table does not hand out any more. -/
def busyNames (table : NameTable) : List String :=
  table.taken ++ Identifier.reservedWords ++ knownPackages.flatMap Prod.snd

theorem knownClass?_isSome_iff (simple : String) :
    (knownClass? simple).isSome = true ↔ simple ∈ knownPackages.flatMap Prod.snd := by
  simp [knownClass?, find?_isSome, mem_flatMap]

theorem busy_iff_mem_busyNames (table : NameTable) (identifier : String) :
    table.busy identifier = true ↔ identifier ∈ table.busyNames := by
  unfold busy Identifier.isReserved busyNames
  rw [Bool.or_eq_true, Bool.or_eq_true, knownClass?_isSome_iff]
  simp only [contains_iff_mem, mem_append]
  tauto

/-- The bound of a table is the number of the names that it does not hand out any more. -/
theorem length_busyNames (table : NameTable) : table.busyNames.length = table.bound := by
  simp only [busyNames, bound, length_append]

/-- Consecutive candidates that all occur in a list are no more than its elements. -/
theorem le_length_of_numbered_mem {first count : Nat} {names : List String}
    (h : ∀ i, i < count → numbered base (first + i) ∈ names) : count ≤ names.length := by
  have hnodup : ((List.range count).map (fun i => numbered base (first + i))).Nodup := by
    refine List.Nodup.map (fun i j hij => ?_) nodup_range
    have := numbered_injective hij
    omega
  have hsubset : (List.range count).map (fun i => numbered base (first + i)) ⊆ names := by
    intro name hname
    obtain ⟨i, hi, rfl⟩ := mem_map.1 hname
    exact h i (mem_range.1 hi)
  simpa using (subperm_of_subset hnodup hsubset).length_le

/-- The search stays within its steps, passes busy candidates only, and ends early only at a free
one. -/
theorem firstFree_spec (busy : String → Bool) (base : String) (steps number : Nat) :
    number ≤ firstFree busy base steps number ∧
      firstFree busy base steps number ≤ number + steps ∧
      (∀ k, number ≤ k → k < firstFree busy base steps number → busy (numbered base k) = true) ∧
      (firstFree busy base steps number < number + steps →
        busy (numbered base (firstFree busy base steps number)) = false) := by
  induction steps generalizing number with
  | zero =>
    simp only [firstFree]
    exact ⟨Nat.le_refl _, Nat.le_refl _, fun k hlow hhigh => by omega, fun h => by omega⟩
  | succ steps ih =>
    unfold firstFree
    split
    · rename_i hbusy
      obtain ⟨hlow, hhigh, hpassed, hfree⟩ := ih (number + 1)
      refine ⟨by omega, by omega, fun k hk hk' => ?_, fun h => hfree (by omega)⟩
      rcases Nat.eq_or_lt_of_le hk with rfl | hk
      · exact hbusy
      · exact hpassed k hk hk'
    · rename_i hfree
      exact ⟨Nat.le_refl _, by omega, fun k hk hk' => by omega, fun _ => by simpa using hfree⟩

theorem le_freeNumber (table : NameTable) (base : String) (number : Nat) :
    number ≤ table.freeNumber base number :=
  (firstFree_spec table.busy base table.bound number).1

theorem busy_of_lt_freeNumber {table : NameTable} {number k : Nat} (hk : number ≤ k)
    (hk' : k < table.freeNumber base number) : table.busy (numbered base k) = true :=
  (firstFree_spec table.busy base table.bound number).2.2.1 k hk hk'

/-- With the number that is found a name is free. -/
theorem not_busy_freeNumber (table : NameTable) (base : String) (number : Nat) :
    table.busy (numbered base (table.freeNumber base number)) = false := by
  obtain ⟨hlow, hhigh, hpassed, hfree⟩ := firstFree_spec table.busy base table.bound number
  apply Bool.eq_false_iff.2
  intro hbusy
  -- A search that used up its steps passed as many candidates as there are busy names; if the
  -- candidate where it stands were busy as well, there would be one too many.
  have hall : ∀ i, i < table.bound + 1 → numbered base (number + i) ∈ table.busyNames := by
    intro i hi
    rw [← busy_iff_mem_busyNames]
    have hend : firstFree table.busy base table.bound number = number + table.bound := by
      by_contra hne
      have := hfree (by omega)
      simp only [freeNumber] at hbusy
      rw [this] at hbusy
      exact absurd hbusy (by simp)
    rcases Nat.lt_or_ge i table.bound with hi' | hi'
    · exact hpassed (number + i) (by omega) (by omega)
    · have : number + i = table.freeNumber base number := by
        simp only [freeNumber]
        omega
      rw [this]
      exact hbusy
  have := le_length_of_numbered_mem hall
  rw [length_busyNames] at this
  omega

theorem freeNumber_one_of_free {table : NameTable} (h : table.busy base = false) :
    table.freeNumber base 1 = 1 := by
  by_contra hne
  have hle := le_freeNumber table base 1
  have hbusy := busy_of_lt_freeNumber (Nat.le_refl 1) (Nat.lt_of_le_of_ne hle (Ne.symm hne))
  rw [numbered, if_pos rfl, h] at hbusy
  cases hbusy

end RobotBlocks.NameTable
