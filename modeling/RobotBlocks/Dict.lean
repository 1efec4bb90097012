/-!
# Finite maps with text keys

A `Dict` lists its entries in strictly increasing key order, and the type carries that fact. The order
of the listing is therefore a function of the contents: two maps with the same look-ups are equal
(`Dict.ext_get?`), however they were filled.

The rest of the file gives one look-up equation for each operation, so that later proofs never open
the list.
-/

set_option autoImplicit false

namespace RobotBlocks

/-- A finite map with text keys, listed in strictly increasing key order. -/
structure Dict (α : Type) where
  entries : List (String × α)
  /-- Keys increase strictly along the listing. -/
  increasing : entries.Pairwise (fun a b => a.1 < b.1)
  deriving DecidableEq

namespace Dict

variable {α : Type}

def empty : Dict α := ⟨[], List.Pairwise.nil⟩

instance : EmptyCollection (Dict α) := ⟨empty⟩

instance : Inhabited (Dict α) := ⟨empty⟩

def find (key : String) : List (String × α) → Option α
  | [] => none
  | entry :: rest => if key = entry.1 then some entry.2 else find key rest

def get? (d : Dict α) (key : String) : Option α := find key d.entries

def contains (d : Dict α) (key : String) : Bool := (d.get? key).isSome

def keys (d : Dict α) : List String := d.entries.map Prod.fst

def values (d : Dict α) : List α := d.entries.map Prod.snd

def size (d : Dict α) : Nat := d.entries.length

/-- Puts an entry at its place in an increasing listing, over an entry of the same key. -/
def place (key : String) (value : α) : List (String × α) → List (String × α)
  | [] => [(key, value)]
  | entry :: rest =>
    if key < entry.1 then (key, value) :: entry :: rest
    else if key = entry.1 then (key, value) :: rest
    else entry :: place key value rest

theorem mem_place {key : String} {value : α} {entries : List (String × α)} {e : String × α}
    (h : e ∈ place key value entries) : e = (key, value) ∨ e ∈ entries := by
  induction entries with
  | nil => exact .inl (by simpa [place] using h)
  | cons entry rest ih =>
    unfold place at h
    split at h
    · simpa using h
    · split at h
      · rcases List.mem_cons.1 h with h | h
        · exact .inl h
        · exact .inr (List.mem_cons_of_mem _ h)
      · rcases List.mem_cons.1 h with h | h
        · exact .inr (h ▸ List.mem_cons_self)
        · exact (ih h).imp id (List.mem_cons_of_mem _)

theorem increasing_place (key : String) (value : α) (entries : List (String × α))
    (h : entries.Pairwise (fun a b => a.1 < b.1)) :
    (place key value entries).Pairwise (fun a b => a.1 < b.1) := by
  induction entries with
  | nil => exact List.pairwise_singleton _ _
  | cons entry rest ih =>
    have hrest := List.pairwise_cons.1 h
    unfold place
    split
    · rename_i hlt
      refine List.pairwise_cons.2 ⟨?_, h⟩
      intro e he
      rcases List.mem_cons.1 he with rfl | he
      · exact hlt
      · exact String.lt_trans hlt (hrest.1 e he)
    · rename_i hnlt
      split
      · rename_i heq
        refine List.pairwise_cons.2 ⟨?_, hrest.2⟩
        intro e he
        exact heq ▸ hrest.1 e he
      · rename_i hne
        refine List.pairwise_cons.2 ⟨?_, ih hrest.2⟩
        intro e he
        rcases mem_place he with rfl | he
        · exact Std.lt_of_le_of_ne (String.not_lt.1 hnlt) (Ne.symm hne)
        · exact hrest.1 e he

/-- Stores a value under a key, over the value it had. -/
def insert (d : Dict α) (key : String) (value : α) : Dict α :=
  ⟨place key value d.entries, increasing_place key value d.entries d.increasing⟩

/-- Stores a value under a key that has none; a stored value stays. -/
def insertIfNew (d : Dict α) (key : String) (value : α) : Dict α :=
  if d.contains key then d else d.insert key value

/-- The map of a list of entries, of which the last of a key counts. -/
def ofList (entries : List (String × α)) : Dict α :=
  entries.foldl (fun d e => d.insert e.1 e.2) empty

@[simp] theorem get?_empty (key : String) : (empty : Dict α).get? key = none := rfl

theorem find_place (key k : String) (value : α) (entries : List (String × α)) :
    find k (place key value entries) = if k = key then some value else find k entries := by
  induction entries with
  | nil => rfl
  | cons entry rest ih =>
    unfold place
    split
    · rfl
    · split
      · rename_i heq
        by_cases h : k = key
        · simp [find, h]
        · have hne : k ≠ entry.1 := fun hk => h (hk.trans heq.symm)
          simp [find, h, hne]
      · rename_i hne
        by_cases hk : k = entry.1
        · have hkey : entry.1 ≠ key := fun h => hne h.symm
          simp [find, hk, hkey]
        · simp [find, hk, ih]

@[simp] theorem get?_insert (d : Dict α) (key k : String) (value : α) :
    (d.insert key value).get? k = if k = key then some value else d.get? k :=
  find_place key k value d.entries

/-- A look-up in an increasing listing finds nothing below its first key. -/
theorem find_eq_none_of_lt {k : String} {entries : List (String × α)}
    (h : ∀ e ∈ entries, k < e.1) : find k entries = none := by
  induction entries with
  | nil => rfl
  | cons entry rest ih =>
    have hk : k ≠ entry.1 := fun hk =>
      String.lt_irrefl k (by simpa [← hk] using h entry List.mem_cons_self)
    simpa [find, hk] using ih (fun e he => h e (List.mem_cons_of_mem _ he))

/-- Increasing listings with the same look-ups are the same listing. -/
theorem eq_of_find_eq {xs ys : List (String × α)}
    (hx : xs.Pairwise (fun a b => a.1 < b.1)) (hy : ys.Pairwise (fun a b => a.1 < b.1))
    (h : ∀ k, find k xs = find k ys) : xs = ys := by
  induction xs generalizing ys with
  | nil =>
    cases ys with
    | nil => rfl
    | cons y ys => simpa [find] using h y.1
  | cons x xs ih =>
    cases ys with
    | nil => simpa [find] using h x.1
    | cons y ys =>
      have hxs := List.pairwise_cons.1 hx
      have hys := List.pairwise_cons.1 hy
      have hkey : x.1 = y.1 := by
        apply Decidable.byContradiction
        intro hne
        rcases Decidable.em (x.1 < y.1) with hlt | hnlt
        · have hnone : find x.1 (y :: ys) = none := find_eq_none_of_lt (by
            intro e he
            rcases List.mem_cons.1 he with rfl | he
            · exact hlt
            · exact String.lt_trans hlt (hys.1 e he))
          have hx := h x.1
          rw [hnone] at hx
          simp [find] at hx
        · have hlt := Std.lt_of_le_of_ne (String.not_lt.1 hnlt) (Ne.symm hne)
          have hnone : find y.1 (x :: xs) = none := find_eq_none_of_lt (by
            intro e he
            rcases List.mem_cons.1 he with rfl | he
            · exact hlt
            · exact String.lt_trans hlt (hxs.1 e he))
          have hy := h y.1
          rw [hnone] at hy
          simp [find] at hy
      have hvalue : x.2 = y.2 := by simpa [find, hkey] using h x.1
      have htail : xs = ys := by
        refine ih hxs.2 hys.2 (fun k => ?_)
        by_cases hk : k = x.1
        · rw [find_eq_none_of_lt (fun e he => hk ▸ hxs.1 e he),
            find_eq_none_of_lt (fun e he => (hk.trans hkey) ▸ hys.1 e he)]
        · have hky : k ≠ y.1 := fun hy => hk (hy.trans hkey.symm)
          simpa [find, hk, hky] using h k
      rw [htail, Prod.ext hkey hvalue]

theorem ext_get? {d e : Dict α} (h : ∀ k, d.get? k = e.get? k) : d = e := by
  obtain ⟨xs, hx⟩ := d
  obtain ⟨ys, hy⟩ := e
  have : xs = ys := eq_of_find_eq hx hy h
  subst this
  rfl

end Dict

end RobotBlocks
