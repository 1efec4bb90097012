import RobotBlocks.StaticType.Table

/-!
# Widening of types

Merging two types is a least upper bound: `Takes wide narrow` says that merging the narrow type into
the wide one changes nothing, that is, that a variable of the wide type takes values of the narrow type
as they are. The order that this gives is known in full (`takes_iff`): `Object` takes all, a
type takes itself, and a numeric type takes the numeric types that are not wider.

A variable that got values of several types has a type that takes all of them. It is `Object` or one
of them, so what the variable takes is what one of them takes (`IsJoin.takes_iff`).
-/

set_option autoImplicit false

namespace RobotBlocks

open NumericType

namespace NumericType

variable {s t : NumericType}

theorem ofLabel?_eq_some_iff {text : String} {type : NumericType} :
    ofLabel? text = some type ↔ text = type.label := by
  constructor
  · intro h
    unfold ofLabel? at h
    split at h <;> cases h <;> rfl
  · rintro rfl
    exact ofLabel?_label type

theorem label_injective (h : s.label = t.label) : s = t := by
  have hs : ofLabel? t.label = some s := ofLabel?_eq_some_iff.2 h.symm
  rw [ofLabel?_label] at hs
  exact (Option.some.inj hs).symm

theorem rank_injective (h : s.rank = t.rank) : s = t := by
  revert h
  cases s <;> cases t <;> decide

theorem widest_eq_left_iff : s.widest t = s ↔ t.rank ≤ s.rank := by
  unfold widest
  split
  · rename_i hle
    constructor
    · rintro rfl
      exact hle
    · intro hge
      exact rank_injective (Nat.le_antisymm hge hle)
  · rename_i hlt
    simp only [true_iff]
    omega

theorem label_ne_object (t : NumericType) : t.label ≠ StaticType.object := by
  cases t <;> decide

end NumericType

namespace StaticType

variable {a b : String}

/-- A variable of the wide type takes values of the narrow type as they are. -/
def Takes (wide narrow : String) : Prop := merge wide narrow = wide

instance (wide narrow : String) : Decidable (Takes wide narrow) :=
  inferInstanceAs (Decidable (merge wide narrow = wide))

@[simp] theorem merge_self (type : String) : merge type type = type := by
  simp [merge]

theorem merge_label (s t : NumericType) : merge s.label t.label = (s.widest t).label := by
  unfold merge
  split
  · rename_i h
    rw [label_injective h]
    cases t <;> rfl
  · simp

theorem merge_eq_object (hne : a ≠ b) (h : ∀ s t : NumericType, a = s.label → b ≠ t.label) :
    merge a b = object := by
  unfold merge
  rw [if_neg hne]
  split
  · rename_i s t hs ht
    exact absurd (ofLabel?_eq_some_iff.1 ht) (h s t (ofLabel?_eq_some_iff.1 hs))
  · rfl

/-- The ways in which two types merge. -/
theorem merge_cases (a b : String) :
    (a = b ∧ merge a b = a) ∨
    (∃ s t : NumericType, a = s.label ∧ b = t.label ∧ merge a b = (s.widest t).label) ∨
    (a ≠ b ∧ (∀ s t : NumericType, a = s.label → b ≠ t.label) ∧ merge a b = object) := by
  by_cases heq : a = b
  · subst heq
    exact .inl ⟨rfl, merge_self a⟩
  by_cases hnumeric : ∃ s t : NumericType, a = s.label ∧ b = t.label
  · obtain ⟨s, t, rfl, rfl⟩ := hnumeric
    exact .inr (.inl ⟨s, t, rfl, rfl, merge_label s t⟩)
  · have hnone : ∀ s t : NumericType, a = s.label → b ≠ t.label :=
      fun s t hs ht => hnumeric ⟨s, t, hs, ht⟩
    exact .inr (.inr ⟨heq, hnone, merge_eq_object heq hnone⟩)

theorem merge_mem (a b : String) : merge a b = object ∨ merge a b = a ∨ merge a b = b := by
  rcases merge_cases a b with ⟨-, h⟩ | ⟨s, t, rfl, rfl, h⟩ | ⟨-, -, h⟩
  · exact .inr (.inl h)
  · rw [h]
    unfold NumericType.widest
    split <;> simp
  · exact .inl h

variable {wide : String}

/-- What a type takes: `Object` takes all, a type takes itself, and a numeric type takes those that
are not wider. -/
theorem takes_iff {narrow : String} :
    Takes wide narrow ↔
      wide = object ∨ wide = narrow ∨
        ∃ s t : NumericType, wide = s.label ∧ narrow = t.label ∧ t.rank ≤ s.rank := by
  unfold Takes
  rcases merge_cases wide narrow with ⟨rfl, h⟩ | ⟨s, t, rfl, rfl, h⟩ | ⟨hne, hnone, h⟩
  · simp
  · rw [h]
    constructor
    · intro hs
      exact .inr (.inr ⟨s, t, rfl, rfl, widest_eq_left_iff.1 (label_injective hs)⟩)
    · rintro (hobject | heq | ⟨s', t', hs, ht, hle⟩)
      · exact absurd hobject s.label_ne_object
      · cases label_injective heq
        rw [widest_eq_left_iff.2 (Nat.le_refl _)]
      · cases label_injective hs
        cases label_injective ht
        rw [widest_eq_left_iff.2 hle]
  · rw [h]
    constructor
    · intro hobject
      exact .inl hobject.symm
    · rintro (hobject | heq | ⟨s, t, hs, ht, -⟩)
      · exact hobject.symm
      · exact absurd heq hne
      · exact absurd ht (hnone s t hs)

theorem takes_refl (type : String) : Takes type type := merge_self type

theorem object_takes (type : String) : Takes object type := takes_iff.2 (.inl rfl)

variable {a b : String}

theorem Takes.trans {c : String} (hab : Takes a b) (hbc : Takes b c) : Takes a c := by
  rcases takes_iff.1 hab with rfl | rfl | ⟨s, t, rfl, rfl, hst⟩
  · exact object_takes c
  · exact hbc
  · rcases takes_iff.1 hbc with hobject | rfl | ⟨t', u, ht, rfl, htu⟩
    · exact absurd hobject t.label_ne_object
    · exact hab
    · cases label_injective ht
      exact takes_iff.2 (.inr (.inr ⟨s, u, rfl, rfl, Nat.le_trans htu hst⟩))

theorem merge_takes (a b : String) : Takes (merge a b) a ∧ Takes (merge a b) b := by
  rcases merge_cases a b with ⟨rfl, h⟩ | ⟨s, t, rfl, rfl, h⟩ | ⟨-, -, h⟩
  · rw [h]
    exact ⟨takes_refl a, takes_refl a⟩
  · rw [h]
    unfold NumericType.widest
    split
    · rename_i hle
      exact ⟨takes_iff.2 (.inr (.inr ⟨t, s, rfl, rfl, hle⟩)), takes_refl _⟩
    · rename_i hlt
      exact ⟨takes_refl _, takes_iff.2 (.inr (.inr ⟨s, t, rfl, rfl, by omega⟩))⟩
  · rw [h]
    exact ⟨object_takes a, object_takes b⟩

/-- What takes two types takes their merge. -/
theorem Takes.merge (ha : Takes wide a) (hb : Takes wide b) : Takes wide (merge a b) := by
  rcases merge_cases a b with ⟨-, h⟩ | ⟨s, t, rfl, rfl, h⟩ | ⟨hne, hnone, h⟩
  · rw [h]
    exact ha
  · rw [h]
    unfold NumericType.widest
    split
    · exact hb
    · exact ha
  · rw [h]
    -- two types with nothing in common are both taken by `Object` only
    rcases takes_iff.1 ha with rfl | rfl | ⟨s, t, rfl, rfl, -⟩
    · exact object_takes object
    · rcases takes_iff.1 hb with rfl | heq | ⟨s, t, hs, ht, -⟩
      · exact object_takes object
      · exact absurd heq hne
      · exact absurd ht (hnone s t hs)
    · rcases takes_iff.1 hb with hobject | rfl | ⟨-, u, -, hu, -⟩
      · exact absurd hobject s.label_ne_object
      · exact absurd rfl (hnone t s rfl)
      · exact absurd hu (hnone t u rfl)

theorem takes_merge_iff : Takes wide (merge a b) ↔ Takes wide a ∧ Takes wide b := by
  constructor
  · intro h
    exact ⟨h.trans (merge_takes a b).1, h.trans (merge_takes a b).2⟩
  · rintro ⟨ha, hb⟩
    exact ha.merge hb

theorem Takes.antisymm (hab : Takes a b) (hba : Takes b a) : a = b := by
  rcases takes_iff.1 hab with rfl | rfl | ⟨s, t, rfl, rfl, hst⟩
  · rcases takes_iff.1 hba with rfl | rfl | ⟨-, t, -, ht, -⟩
    · rfl
    · rfl
    · exact absurd ht.symm t.label_ne_object
  · rfl
  · rcases takes_iff.1 hba with hobject | heq | ⟨t', s', ht, hs, hts⟩
    · exact absurd hobject t.label_ne_object
    · exact heq.symm
    · cases label_injective ht
      cases label_injective hs
      rw [rank_injective (Nat.le_antisymm hts hst)]

/-- Types that are taken by the same types are equal. -/
theorem eq_of_takes_iff (h : ∀ wide, Takes wide a ↔ Takes wide b) : a = b :=
  Takes.antisymm ((h a).1 (takes_refl a)) ((h b).2 (takes_refl b))

theorem merge_comm (a b : String) : merge a b = merge b a := by
  refine eq_of_takes_iff fun wide => ?_
  rw [takes_merge_iff, takes_merge_iff, and_comm]

theorem merge_assoc (a b c : String) : merge (merge a b) c = merge a (merge b c) := by
  refine eq_of_takes_iff fun wide => ?_
  simp only [takes_merge_iff, and_assoc]

theorem merge_object (a : String) : merge a object = object := by
  rw [merge_comm]
  exact object_takes a

/-- The type of a variable after one more value. -/
def widen (known : Option String) (type : String) : String :=
  match known with
  | some joined => merge joined type
  | none => type

/-- The type that a table knows, or does not know, for a variable that got values of some types: it
takes all of them, and it is `Object` or one of them. -/
structure IsJoin (known : Option String) (types : List String) : Prop where
  takes : ∀ type ∈ types, Takes (known.getD object) type
  attained : known.getD object = object ∨ known.getD object ∈ types
  unknown : known = none → types = []

namespace IsJoin

variable {known : Option String} {types : List String}

theorem ofKnown (known : Option String) : IsJoin known known.toList := by
  cases known with
  | none => exact ⟨by simp, .inl rfl, fun _ => rfl⟩
  | some type => exact ⟨by simp [takes_refl], .inr (by simp), by simp⟩

theorem snoc (h : IsJoin known types) (type : String) :
    IsJoin (some (widen known type)) (types ++ [type]) := by
  cases known with
  | none =>
    have hnil : types = [] := h.unknown rfl
    subst hnil
    exact ⟨by simp [widen, takes_refl], .inr (by simp [widen]), by simp⟩
  | some joined =>
    have hboth := merge_takes joined type
    refine ⟨?_, ?_, by simp⟩
    · intro other hother
      rcases List.mem_append.1 hother with hold | hnew
      · exact hboth.1.trans (h.takes other hold)
      · rw [List.mem_singleton.1 hnew]
        exact hboth.2
    · -- the merged type is `Object` or one of its parts, and the first part was so before
      rcases merge_mem joined type with hobject | hjoined | htype
      · exact .inl hobject
      · rcases h.attained with hobject | hmem
        · exact .inl (hjoined.trans hobject)
        · refine .inr (List.mem_append_left _ ?_)
          simpa only [widen, Option.getD_some, hjoined] using hmem
      · exact .inr (by simp [widen, htype])

/-- A join takes what one of its parts takes, unless it is `Object` and takes all. -/
theorem takes_iff (h : IsJoin known types) (narrow : String) :
    Takes (known.getD object) narrow ↔
      known.getD object = object ∨ ∃ type ∈ types, Takes type narrow := by
  constructor
  · intro htakes
    rcases h.attained with hobject | hmem
    · exact .inl hobject
    · exact .inr ⟨_, hmem, htakes⟩
  · rintro (hobject | ⟨type, hmem, htakes⟩)
    · rw [hobject]
      exact object_takes narrow
    · exact (h.takes type hmem).trans htakes

end IsJoin

end StaticType

end RobotBlocks
