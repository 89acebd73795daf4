import Mathlib.Data.List.Nodup

/-!
# Tables

A table holds values under keys, in the order in which the keys came. Where no key occurs twice,
what is found under a key is what the table holds there (`Table.lookup_eq_some_iff`), and no key
occurs twice after a value is put (`Table.nodup_keys_put`).
-/

namespace TimedCommands

/-- Values under keys, in the order in which the keys came. -/
abbrev Table (α : Type) := List (String × α)

namespace Table

variable {α : Type} {key other : String} {value : α} {table : Table α}

/-- Puts a value under a key: in the place of the one that was there, or behind all others. -/
def put (key : String) (value : α) : Table α → Table α
  | [] => [(key, value)]
  | entry :: rest => if entry.1 = key then (key, value) :: rest else entry :: put key value rest

/-- The keys, in the order in which they came. -/
def keys (table : Table α) : List String := table.map (·.1)

/-- A key is found at the first entry if it is the key there, and behind it if not. -/
theorem lookup_cons (first : String) (held : α) (rest : Table α) (key : String) :
    List.lookup key ((first, held) :: rest) =
      if key = first then some held else List.lookup key rest := by
  by_cases same : key = first
  · simp [same]
  · have different : (key == first) = false := beq_false_of_ne same
    simp [List.lookup_cons, different, same]

/-- What is put under a key is found there, and all else as before. -/
theorem lookup_put (key : String) (value : α) (table : Table α) (other : String) :
    (table.put key value).lookup other =
      if other = key then some value else table.lookup other := by
  induction table with
  | nil => simp [put, lookup_cons]
  | cons entry rest ih =>
    obtain ⟨first, held⟩ := entry
    by_cases here : first = key
    · by_cases same : other = key <;> simp [put, here, lookup_cons, same]
    · by_cases same : other = first
      · simp [put, here, same]
      · simp [put, here, lookup_cons, same, ih]

/-- A key that is put is new at the end, or was there before. -/
theorem keys_put (key : String) (value : α) (table : Table α) :
    (table.put key value).keys =
      if key ∈ table.keys then table.keys else table.keys ++ [key] := by
  induction table with
  | nil => rfl
  | cons entry rest ih =>
    by_cases here : entry.1 = key
    · simp [put, here, keys]
    · have different : key ≠ entry.1 := fun eq => here eq.symm
      have tail : (put key value rest).keys =
          if key ∈ rest.map (·.1) then rest.map (·.1) else rest.map (·.1) ++ [key] := ih
      simp only [put, if_neg here, keys, List.map_cons, List.mem_cons, different, false_or]
        at tail ⊢
      rw [tail]
      split <;> rfl

/-- Keys stay distinct. -/
theorem nodup_keys_put (distinct : table.keys.Nodup) (key : String) (value : α) :
    (table.put key value).keys.Nodup := by
  rw [keys_put]
  split
  · exact distinct
  next absent =>
    rw [← List.concat_eq_append]
    exact List.Nodup.concat absent distinct

/-- What is in a table was put there last, or before. -/
theorem mem_put {entry : String × α} (member : entry ∈ table.put key value) :
    entry = (key, value) ∨ entry ∈ table := by
  induction table with
  | nil => exact .inl (List.mem_singleton.mp member)
  | cons first rest ih =>
    rw [put] at member
    split at member
    · exact (List.mem_cons.mp member).imp_right (.tail _)
    · rcases List.mem_cons.mp member with rfl | later
      · exact .inr (.head _)
      · exact (ih later).imp_right (.tail _)

/-- What is found in a table is in it. -/
theorem mem_of_lookup (found : table.lookup key = some value) : (key, value) ∈ table := by
  obtain ⟨before, behind, rfl, -⟩ := List.lookup_eq_some_iff.mp found
  exact List.mem_append_right _ (.head _)

/-- Values under keys of their own are found under them. -/
theorem lookup_eq_some_iff (distinct : table.keys.Nodup) :
    table.lookup key = some value ↔ (key, value) ∈ table := by
  constructor
  · exact mem_of_lookup
  · intro member
    obtain ⟨before, behind, rfl⟩ := List.append_of_mem member
    refine List.lookup_eq_some_iff.mpr ⟨before, behind, rfl, fun entry isBefore => ?_⟩
    rw [keys, List.map_append, List.map_cons, List.nodup_append] at distinct
    have apart := distinct.2.2 entry.1 (List.mem_map_of_mem isBefore) key List.mem_cons_self
    simpa using apart.symm

/-- A key that is new is put behind all others. -/
theorem put_of_lookup_eq_none (absent : table.lookup key = none) (value : α) :
    table.put key value = table ++ [(key, value)] := by
  induction table with
  | nil => rfl
  | cons entry rest ih =>
    obtain ⟨first, held⟩ := entry
    rw [lookup_cons] at absent
    split at absent
    next => cases absent
    next different =>
      have notHere : ¬ first = key := fun eq => different eq.symm
      rw [put, if_neg notHere, ih absent]
      rfl

end Table

end TimedCommands
