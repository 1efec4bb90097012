import RobotBlocks.Dict

/-!
# Entries of finite maps

The listing of a map as a collection: an entry is listed exactly if look-up finds it, a new key adds
one entry, and a known key adds none.
-/

set_option autoImplicit false

namespace RobotBlocks.Dict

open List

variable {α : Type}
variable {key : String} {entries : List (String × α)} {d : Dict α} {value : α}

theorem mem_iff_find_eq (h : entries.Pairwise (fun a b => a.1 < b.1)) :
    (key, value) ∈ entries ↔ find key entries = some value := by
  induction entries with
  | nil => simp [find]
  | cons entry rest ih =>
    have hrest := pairwise_cons.1 h
    obtain ⟨first, content⟩ := entry
    by_cases hkey : key = first
    · subst hkey
      have hnone : (key, value) ∉ rest := fun hmem =>
        String.lt_irrefl key (hrest.1 _ hmem)
      simp [find, hnone, eq_comm]
    · simp [find, hkey, ih hrest.2]

theorem mem_entries_iff : (key, value) ∈ d.entries ↔ d.get? key = some value :=
  mem_iff_find_eq d.increasing

theorem pairwise_keys (d : Dict α) : d.keys.Pairwise (· < ·) := pairwise_map.2 d.increasing

theorem mem_keys_iff : key ∈ d.keys ↔ d.contains key = true := by
  unfold keys contains
  rw [mem_map, Option.isSome_iff_exists]
  constructor
  · rintro ⟨entry, hentry, rfl⟩
    exact ⟨entry.2, mem_entries_iff.1 hentry⟩
  · rintro ⟨value, hvalue⟩
    exact ⟨(key, value), mem_entries_iff.2 hvalue, rfl⟩

theorem place_perm (h : find key entries = none) :
    (place key value entries).Perm ((key, value) :: entries) := by
  induction entries with
  | nil => exact List.Perm.refl _
  | cons entry rest ih =>
    have hne : key ≠ entry.1 := by
      rintro rfl
      simp [find] at h
    have hrest : find key rest = none := by simpa [find, hne] using h
    unfold place
    split
    · exact List.Perm.refl _
    · exact ((ih hrest).cons entry).trans (List.Perm.swap _ _ _)

theorem entries_insert_perm (h : d.get? key = none) (value : α) :
    (d.insert key value).entries.Perm ((key, value) :: d.entries) :=
  place_perm h

theorem length_place_of_isSome (hsorted : entries.Pairwise (fun a b => a.1 < b.1))
    (h : (find key entries).isSome) : (place key value entries).length = entries.length := by
  induction entries with
  | nil => simp [find] at h
  | cons entry rest ih =>
    have hrest := pairwise_cons.1 hsorted
    unfold place
    split
    · rename_i hlt
      have hnone : find key (entry :: rest) = none := by
        refine find_eq_none_of_lt (fun e he => ?_)
        rcases mem_cons.1 he with rfl | he
        · exact hlt
        · exact String.lt_trans hlt (hrest.1 e he)
      simp [hnone] at h
    · split
      · rfl
      · rename_i hne
        have hfound : (find key rest).isSome := by simpa [find, hne] using h
        simp [ih hrest.2 hfound]

theorem length_entries_insert_of_isSome (h : (d.get? key).isSome) (value : α) :
    (d.insert key value).entries.length = d.entries.length :=
  length_place_of_isSome d.increasing h

end RobotBlocks.Dict
