import RobotBlocks.Proofs.Context.Identifiers

/-!
# The search for a name as a loop

The table bounds its search for a free number. `Searches` is the search without a bound, as a loop that
goes on while the candidate is busy. It ends from every number on, at the first free candidate, and
there the bounded search ends as well (`searches_iff`). A helper name is searched from the number on
that its base has reached, so that its numbers grow whatever else is asked for in between.
-/

set_option autoImplicit false

namespace RobotBlocks

namespace NameTable

variable {table : NameTable} {base : String} {number result : Nat}

/-- The loop comes from a number to the first one whose candidate is free. -/
inductive Searches (table : NameTable) (base : String) : (number result : Nat) → Prop
  | found {number : Nat} (h : table.busy (numbered base number) = false) :
      Searches table base number number
  | passed {number result : Nat} (h : table.busy (numbered base number) = true)
      (rest : Searches table base (number + 1) result) : Searches table base number result

theorem Searches.unique {other : Nat} (h : table.Searches base number result)
    (h' : table.Searches base number other) : result = other := by
  induction h with
  | found hfree =>
    cases h' with
    | found => rfl
    | passed hbusy => exact absurd hbusy (by simp [hfree])
  | passed hbusy _ ih =>
    cases h' with
    | found hfree => exact absurd hbusy (by simp [hfree])
    | passed _ rest => exact ih rest

theorem searches_of_le (hle : number ≤ result)
    (hbusy : ∀ k, number ≤ k → k < result → table.busy (numbered base k) = true)
    (hfree : table.busy (numbered base result) = false) : table.Searches base number result := by
  obtain ⟨passed, rfl⟩ := Nat.exists_eq_add_of_le hle
  induction passed generalizing number with
  | zero => exact .found hfree
  | succ passed ih =>
    have hshift : number + (passed + 1) = number + 1 + passed := by omega
    rw [hshift] at hbusy hfree ⊢
    refine .passed (hbusy number le_rfl (by omega)) (ih (by omega) (fun k hk => ?_) hfree)
    exact hbusy k (Nat.le_of_succ_le hk)

/-- The loop ends, and the bounded search where it does. -/
theorem searches_iff : table.Searches base number result ↔ result = table.freeNumber base number := by
  have hends : table.Searches base number (table.freeNumber base number) :=
    searches_of_le (le_freeNumber table base number) (fun _ => busy_of_lt_freeNumber)
      (not_busy_freeNumber table base number)
  constructor
  · intro h
    exact h.unique hends
  · rintro rfl
    exact hends

/-! ## Identifiers -/

/-- A busy base gets the least number from two on that makes it free. -/
theorem freeNumber_one_of_busy (h : table.busy base = true) :
    2 ≤ table.freeNumber base 1 ∧
      table.busy (base ++ toString (table.freeNumber base 1)) = false ∧
      ∀ j, 2 ≤ j → j < table.freeNumber base 1 → table.busy (base ++ toString j) = true := by
  have hfree := not_busy_freeNumber table base 1
  have hlow := le_freeNumber table base 1
  have hne : table.freeNumber base 1 ≠ 1 := by
    intro hone
    rw [hone] at hfree
    exact absurd h (by simpa [numbered] using hfree)
  rw [numbered, if_neg hne] at hfree
  refine ⟨by omega, hfree, fun j hj hj' => ?_⟩
  have hbusy := busy_of_lt_freeNumber (by omega) hj'
  rwa [numbered, if_neg (by omega)] at hbusy

/-! ## Helper names -/

/-- The number that a base of helper names has reached. -/
def reached (table : NameTable) (base : String) : Nat := (table.counters.get? base).getD 0

theorem reached_distinctName (table : NameTable) (base other : String) :
    (table.distinctName base).2.reached other =
      if other = base then table.freeNumber base (table.reached base + 1)
      else table.reached other := by
  unfold reached distinctName
  rw [Dict.get?_insert]
  split <;> rfl

/-- Requests never take a number back. -/
theorem le_reached_distinctName (table : NameTable) (base other : String) :
    table.reached other ≤ (table.distinctName base).2.reached other := by
  rw [reached_distinctName]
  split
  · next heq =>
    rw [heq]
    exact Nat.le_of_succ_le (le_freeNumber table base _)
  · exact Nat.le_refl _

theorem reached_identifierFor (table : NameTable) (space : Namespace) (name other : String) :
    (table.identifierFor space name).2.reached other = table.reached other := by
  unfold identifierFor
  split <;> rfl

end NameTable

namespace Context

open NameTable (numbered)

theorem le_reached_after {number : Nat} {base : String} {context : Context}
    (h : number ≤ context.names.reached base) (operations : List Operation) :
    number ≤ (context.after operations).names.reached base := by
  refine names_after (P := fun table => number ≤ table.reached base) (fun table space name h => ?_)
    (fun table other h => ?_) operations h
  · rwa [NameTable.reached_identifierFor]
  · exact Nat.le_trans h (table.le_reached_distinctName other base)

/-- For a new name the search ends, and its identifier is the base of the name if that is free, and
otherwise the base with the least number from two on behind it that makes it free. The search for a
helper name ends as well, and of two with one base the later has the greater number, whatever is asked
for in between. -/
theorem name_search_ends (context : Context) :
    (∀ space name base, context.names.assigned? space name = none →
      context.names.baseFor space name = base →
      (∃ number, (∀ result, context.names.Searches base 1 result ↔ result = number) ∧
        (context.identifierFor space name).1 = numbered base number) ∧
      (context.names.busy base = false → (context.identifierFor space name).1 = base) ∧
      (context.names.busy base = true → ∃ k, 2 ≤ k ∧
        (context.identifierFor space name).1 = base ++ toString k ∧
        context.names.busy (base ++ toString k) = false ∧
        ∀ j, 2 ≤ j → j < k → context.names.busy (base ++ toString j) = true)) ∧
    ∀ base, ∃ number,
      (∀ result, context.names.Searches base (context.names.reached base + 1) result ↔
        result = number) ∧
      (context.distinctName base).1 = numbered base number ∧
      ∀ operations, ∃ later, number < later ∧
        (((context.distinctName base).2.after operations).distinctName base).1 =
          numbered base later := by
  refine ⟨fun space name base hnew hbase => ?_, fun base => ?_⟩
  · have hidentifier : (context.identifierFor space name).1 =
        numbered base (context.names.freeNumber base 1) :=
      hbase ▸ NameTable.identifierFor_of_new hnew
    rw [hidentifier]
    refine ⟨⟨_, fun result => NameTable.searches_iff, rfl⟩, fun hfree => ?_, fun hbusy => ?_⟩
    · rw [NameTable.freeNumber_one_of_free hfree]
      rfl
    · obtain ⟨hlow, hfree, hleast⟩ := NameTable.freeNumber_one_of_busy hbusy
      exact ⟨_, hlow, by rw [numbered, if_neg (by omega)], hfree, hleast⟩
  · refine ⟨_, fun result => NameTable.searches_iff, rfl, fun operations => ?_⟩
    have hreached : (context.distinctName base).2.names.reached base =
        context.names.freeNumber base (context.names.reached base + 1) :=
      (context.names.reached_distinctName base base).trans (if_pos rfl)
    have hafter := le_reached_after (Nat.le_of_eq hreached.symm) operations
    exact ⟨_, Nat.lt_of_lt_of_le (Nat.lt_succ_of_le hafter) (NameTable.le_freeNumber _ base _), rfl⟩

/-- A variable that is called as a word of the targets gets a number. -/
theorem search_for_class_ends :
    ({} : Context).names.assigned? .variableNames "class" = none ∧
      ∃ k, 2 ≤ k ∧ (({} : Context).identifierFor .variableNames "class").1 = "class" ++ toString k := by
  refine ⟨rfl, ?_⟩
  obtain ⟨-, -, hbusy⟩ := (name_search_ends {}).1 .variableNames "class" "class" rfl (by decide)
  obtain ⟨k, hlow, hidentifier, -⟩ := hbusy (by decide)
  exact ⟨k, hlow, hidentifier⟩

end Context

end RobotBlocks
