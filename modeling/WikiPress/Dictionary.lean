/-!
# Dictionaries

Finite maps from texts, as lists of pairs sorted by key. Two dictionaries that were built by insertion
hold the same pairs exactly when they are equal.
-/

namespace WikiPress

abbrev Dictionary (α : Type) := List (String × α)

namespace Dictionary

variable {α : Type}

/-- Puts a value under a key, in the place of an older one or where the order wants it. -/
def insert (key : String) (value : α) : Dictionary α → Dictionary α
  | [] => [(key, value)]
  | (k, v) :: rest =>
    if key = k then (key, value) :: rest
    else if key < k then (key, value) :: (k, v) :: rest
    else (k, v) :: insert key value rest

/-- The dictionary of a list of pairs; of two pairs with one key the later counts. -/
def ofPairs (pairs : List (String × α)) : Dictionary α :=
  pairs.foldl (fun entries (k, v) => insert k v entries) []

/-- Puts a value in the place of the one under a key, if there is one. -/
def replace (key : String) (value : α) : Dictionary α → Dictionary α
  | [] => []
  | (k, v) :: rest => if k = key then (k, value) :: rest else (k, v) :: replace key value rest

theorem lookup_cons {κ : Type} [BEq κ] [LawfulBEq κ] [DecidableEq κ] (key k : κ) (v : α) (rest : List (κ × α)) :
    List.lookup key ((k, v) :: rest) = if key = k then some v else rest.lookup key := by
  by_cases h : key = k
  · simp [h]
  · rw [List.lookup_cons, beq_eq_false_iff_ne.2 h]; simp [h]

theorem lookup_map {κ κ' β : Type} [BEq κ] [LawfulBEq κ] [DecidableEq κ] [BEq κ'] [LawfulBEq κ'] [DecidableEq κ']
    {f : κ → κ'} (hf : ∀ k k', f k = f k' → k = k') (g : α → β) (key : κ) (list : List (κ × α)) :
    (list.map fun p => (f p.1, g p.2)).lookup (f key) = (list.lookup key).map g := by
  induction list with
  | nil => rfl
  | cons p list ih =>
    obtain ⟨k, v⟩ := p
    rw [List.map_cons, lookup_cons, lookup_cons, ih]
    by_cases h : key = k
    · rw [if_pos h, if_pos (congrArg f h)]
      rfl
    · rw [if_neg h, if_neg fun hk => h (hf key k hk)]

theorem lookup_insert (key other : String) (value : α) (entries : Dictionary α) :
    (insert key value entries).lookup other =
      if other = key then some value else entries.lookup other := by
  induction entries with
  | nil => simp [insert, lookup_cons]
  | cons entry rest ih =>
    unfold insert
    grind [lookup_cons]

theorem lookup_replace (key other : String) (value : α) (entries : Dictionary α) :
    (replace key value entries).lookup other =
      if other = key then (entries.lookup key).map fun _ => value else entries.lookup other := by
  induction entries with
  | nil => simp [replace]
  | cons entry rest ih =>
    unfold replace
    grind [lookup_cons]

theorem keys_replace (key : String) (value : α) (entries : Dictionary α) :
    (replace key value entries).map Prod.fst = entries.map Prod.fst := by
  induction entries with
  | nil => rfl
  | cons entry rest ih =>
    obtain ⟨k, v⟩ := entry
    unfold replace
    split <;> simp_all

theorem mem_keys_insert (key other : String) (value : α) (entries : Dictionary α) :
    other ∈ (insert key value entries).map Prod.fst ↔ other = key ∨ other ∈ entries.map Prod.fst := by
  induction entries with
  | nil => simp [insert]
  | cons entry rest ih =>
    obtain ⟨k, v⟩ := entry
    unfold insert
    split
    · rename_i hk
      simp [hk]
    · split
      · simp
      · simp only [List.map_cons, List.mem_cons, ih]
        exact or_left_comm

theorem mem_keys_ofPairs (key : String) (pairs : List (String × α)) :
    key ∈ (ofPairs pairs).map Prod.fst ↔ key ∈ pairs.map Prod.fst := by
  suffices h : ∀ entries : Dictionary α,
      key ∈ (pairs.foldl (fun entries (k, v) => insert k v entries) entries).map Prod.fst ↔
        key ∈ entries.map Prod.fst ∨ key ∈ pairs.map Prod.fst by
    exact (h []).trans (or_iff_right List.not_mem_nil)
  induction pairs with
  | nil => simp
  | cons pair pairs ih =>
    intro entries
    rw [List.foldl_cons, ih, mem_keys_insert, List.map_cons, List.mem_cons, or_left_comm, or_assoc]

end Dictionary

end WikiPress
