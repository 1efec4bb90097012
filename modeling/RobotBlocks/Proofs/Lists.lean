import Mathlib.Algebra.GroupWithZero.Nat
import Mathlib.Data.List.Forall2
import Mathlib.Data.List.Nodup
import Mathlib.Data.List.TakeWhile

/-!
# Lists

Facts about lists that no library has in this form.
-/

set_option autoImplicit false

namespace RobotBlocks

open List

variable {α β γ : Type} {relation : α → β → Prop} {as : List α} {bs : List β}

theorem pairwise_concat {R : α → α → Prop} {a : α} (h : as.Pairwise R)
    (hlast : ∀ earlier ∈ as, R earlier a) : (as ++ [a]).Pairwise R :=
  pairwise_append.2 ⟨h, pairwise_singleton _ _, by simpa using hlast⟩

theorem nodup_eraseDups [DecidableEq α] (items : List α) : items.eraseDups.Nodup := by
  induction hlength : items.length using Nat.strongRecOn generalizing items with
  | _ length ih =>
    cases items with
    | nil => simp
    | cons item rest =>
      rw [eraseDups_cons, nodup_cons]
      have hshorter := length_filter_le (fun other => !other == item) rest
      refine ⟨?_, ih _ ?_ _ rfl⟩
      · rw [mem_eraseDups]
        simp
      · rw [← hlength, length_cons]
        omega

/-- A step that ends well for each element of a list ends well for the list. -/
theorem mapM_eq_some_map {f : α → Option β} {g : α → β} (h : ∀ a ∈ as, f a = some (g a)) :
    as.mapM f = some (as.map g) := by
  induction as with
  | nil => rfl
  | cons a rest ih =>
    rw [mapM_cons, h a mem_cons_self, ih (forall_mem_cons.1 h).2]
    rfl

/-! ## Characters -/

theorem forall_ne_of_not_mem {stop : Char} {cs : List Char} (h : stop ∉ cs) :
    ∀ c ∈ cs, decide (c ≠ stop) = true :=
  fun _ hc => decide_eq_true (ne_of_mem_of_not_mem hc h)

/-- A run of characters ends where a character of another kind follows. -/
theorem takeWhile_dropWhile_append {p : Char → Bool} {cs rest : List Char}
    (h : ∀ c ∈ cs, p c = true) (hrest : ∀ c ∈ rest.head?, p c = false) :
    (cs ++ rest).takeWhile p = cs ∧ (cs ++ rest).dropWhile p = rest := by
  rw [takeWhile_append_of_pos h, dropWhile_append_of_pos h]
  cases rest with
  | nil => simp
  | cons c rest => simp [hrest c rfl]

/-! ## Lists that are related element by element -/

/-- There is a list that is related to another one if there is something for each of its
elements. -/
theorem exists_forall₂ (h : ∀ b ∈ bs, ∃ a, relation a b) : ∃ as, List.Forall₂ relation as bs := by
  induction bs with
  | nil => exact ⟨[], .nil⟩
  | cons b rest ih =>
    obtain ⟨a, ha⟩ := h b mem_cons_self
    obtain ⟨others, hothers⟩ := ih (forall_mem_cons.1 h).2
    exact ⟨a :: others, .cons ha hothers⟩

theorem exists_left_of_forall₂ (h : List.Forall₂ relation as bs) {b : β} (hmem : b ∈ bs) :
    ∃ a ∈ as, relation a b := by
  induction h with
  | nil => simp at hmem
  | cons hab _ ih =>
    rcases mem_cons.1 hmem with rfl | hmem
    · exact ⟨_, mem_cons_self, hab⟩
    · obtain ⟨a, ha, hrelated⟩ := ih hmem
      exact ⟨a, mem_cons_of_mem _ ha, hrelated⟩

theorem forall₂_flatMap {f : γ → List α} {g : γ → List β} {items : List γ}
    (h : ∀ item ∈ items, List.Forall₂ relation (f item) (g item)) :
    List.Forall₂ relation (items.flatMap f) (items.flatMap g) := by
  refine rel_flatten ?_
  rw [forall₂_map_left_iff, forall₂_map_right_iff, forall₂_same]
  exact h

theorem sum_le_of_forall₂ {f : α → Nat} {g : β → Nat} (h : List.Forall₂ relation as bs)
    (hle : ∀ a, ∀ b ∈ bs, relation a b → f a ≤ g b) : (as.map f).sum ≤ (bs.map g).sum := by
  induction h with
  | nil => simp
  | cons hab _ ih =>
    have hfirst := hle _ _ mem_cons_self hab
    have hothers := ih (fun a b hb => hle a b (mem_cons_of_mem _ hb))
    simp only [map_cons, sum_cons]
    omega

/-- Numbers that are pairwise at most others, with the same sum, are equal to them. -/
theorem forall₂_eq_of_sum_eq {f : α → Nat} {g : β → Nat} (h : List.Forall₂ relation as bs)
    (hle : ∀ a, ∀ b ∈ bs, relation a b → f a ≤ g b) (hsum : (as.map f).sum = (bs.map g).sum) :
    List.Forall₂ (fun a b => relation a b ∧ f a = g b) as bs := by
  induction h with
  | nil => exact List.Forall₂.nil
  | cons hab hrest ih =>
    have hleRest : ∀ a, ∀ b ∈ _, relation a b → f a ≤ g b :=
      fun a b hb => hle a b (mem_cons_of_mem _ hb)
    have hfirst := hle _ _ mem_cons_self hab
    have hothers := sum_le_of_forall₂ hrest hleRest
    simp only [map_cons, sum_cons] at hsum
    exact List.Forall₂.cons ⟨hab, by omega⟩ (ih hleRest (by omega))

end RobotBlocks
