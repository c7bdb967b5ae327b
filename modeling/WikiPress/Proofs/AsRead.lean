import WikiPress.Json.Reading
import WikiPress.Proofs.Steps

/-!
# Values as they are read

The keys of an object stand in order, and arrays and objects lie no deeper in one another than a reader goes. A
dictionary made of pairs in order is the list of these pairs.
-/

namespace WikiPress

namespace Dictionary

variable {α : Type}

/-- Keys in order, each once. -/
def IsSorted (entries : List (String × α)) : Prop :=
  (entries.map Prod.fst).Pairwise (· < ·)

instance (entries : List (String × α)) : Decidable (IsSorted entries) :=
  inferInstanceAs (Decidable (List.Pairwise _ _))

theorem lt_of_not_lt {key k : String} (hne : key ≠ k) (h : ¬key < k) : k < key := by
  rw [← String.not_le]
  exact fun hle => hne (String.le_antisymm hle (String.not_lt.1 h))

theorem insert_isSorted (key : String) (value : α) {entries : Dictionary α} (h : IsSorted entries) :
    IsSorted (insert key value entries) := by
  induction entries with
  | nil => exact List.pairwise_singleton _ _
  | cons entry rest ih =>
    obtain ⟨k, v⟩ := entry
    obtain ⟨hk, hrest⟩ := List.pairwise_cons.1 h
    unfold insert
    split
    · rename_i heq
      subst heq
      exact h
    · rename_i hne
      split
      · rename_i hlt
        refine List.pairwise_cons.2 ⟨fun other hother => ?_, h⟩
        obtain rfl | hother := List.mem_cons.1 hother
        · exact hlt
        · exact String.lt_trans hlt (hk other hother)
      · rename_i hlt
        refine List.pairwise_cons.2 ⟨fun other hother => ?_, ih hrest⟩
        obtain rfl | hother := (mem_keys_insert key other value rest).1 hother
        · exact lt_of_not_lt hne hlt
        · exact hk other hother

theorem ofPairs_isSorted (pairs : List (String × α)) : IsSorted (ofPairs pairs) := by
  suffices h : ∀ entries : Dictionary α, IsSorted entries →
      IsSorted (pairs.foldl (fun entries pair => insert pair.1 pair.2 entries) entries) from h [] .nil
  induction pairs with
  | nil => exact fun entries h => h
  | cons pair pairs ih => exact fun entries h => ih _ (insert_isSorted pair.1 pair.2 h)

theorem insert_last {key : String} (value : α) {entries : Dictionary α} (h : ∀ k ∈ entries.map Prod.fst, k < key) :
    insert key value entries = entries ++ [(key, value)] := by
  induction entries with
  | nil => rfl
  | cons entry rest ih =>
    obtain ⟨k, v⟩ := entry
    have hk : k < key := h k (List.mem_cons_self ..)
    have hne : key ≠ k := fun heq => String.lt_irrefl _ (heq ▸ hk)
    rw [insert, if_neg hne, if_neg (String.lt_asymm hk), ih fun k hk => h k (List.mem_cons_of_mem _ hk)]
    rfl

theorem ofPairs_of_isSorted {pairs : List (String × α)} (h : IsSorted pairs) : ofPairs pairs = pairs := by
  suffices hall : ∀ entries : Dictionary α, IsSorted (entries ++ pairs) →
      pairs.foldl (fun entries pair => insert pair.1 pair.2 entries) entries = entries ++ pairs from hall [] h
  clear h
  induction pairs with
  | nil => exact fun entries _ => (List.append_nil entries).symm
  | cons pair pairs ih =>
    intro entries h
    have hlast : insert pair.1 pair.2 entries = entries ++ [pair] := by
      apply insert_last
      intro k hk
      rw [IsSorted, List.map_append] at h
      exact (List.pairwise_append.1 h).2.2 k hk pair.1 (List.mem_cons_self ..)
    rw [List.foldl_cons, hlast, ih _ (by rwa [List.append_assoc]), List.append_assoc]
    rfl

theorem mem_insert {key : String} {value : α} {entries : Dictionary α} {entry : String × α}
    (h : entry ∈ insert key value entries) : entry = (key, value) ∨ entry ∈ entries := by
  induction entries with
  | nil => exact .inl (List.mem_singleton.1 h)
  | cons first rest ih =>
    obtain ⟨k, v⟩ := first
    unfold insert at h
    split at h
    · obtain rfl | h := List.mem_cons.1 h
      · exact .inl rfl
      · exact .inr (List.mem_cons_of_mem _ h)
    · split at h
      · exact List.mem_cons.1 h
      · obtain rfl | h := List.mem_cons.1 h
        · exact .inr (List.mem_cons_self ..)
        · exact (ih h).imp_right (List.mem_cons_of_mem _)

theorem mem_of_mem_ofPairs {pairs : List (String × α)} {entry : String × α} (h : entry ∈ ofPairs pairs) :
    entry ∈ pairs := by
  suffices hall : ∀ entries : Dictionary α,
      entry ∈ pairs.foldl (fun entries pair => insert pair.1 pair.2 entries) entries →
      entry ∈ entries ∨ entry ∈ pairs from (hall [] h).resolve_left List.not_mem_nil
  clear h
  induction pairs with
  | nil => exact fun entries h => .inl h
  | cons pair pairs ih =>
    intro entries h
    rcases ih _ h with h | h
    · rcases mem_insert h with h | h
      · exact .inr (h ▸ List.mem_cons_self ..)
      · exact .inl h
    · exact .inr (List.mem_cons_of_mem _ h)

end Dictionary

namespace Json

/-! ## Order and depth -/

namespace Value

mutual

/-- Every object has its keys in order. -/
def isSorted : Value → Bool
  | .array items => itemsSorted items
  | .object fields => decide (Dictionary.IsSorted fields) && fieldsSorted fields
  | _ => true

def itemsSorted : List Value → Bool
  | [] => true
  | item :: items => isSorted item && itemsSorted items

def fieldsSorted : List (String × Value) → Bool
  | [] => true
  | (_, value) :: fields => isSorted value && fieldsSorted fields

end

mutual

/-- How many arrays and objects lie in one another. -/
def depth : Value → Nat
  | .array items => itemsDepth items + 1
  | .object fields => fieldsDepth fields + 1
  | _ => 0

def itemsDepth : List Value → Nat
  | [] => 0
  | item :: items => max (depth item) (itemsDepth items)

def fieldsDepth : List (String × Value) → Nat
  | [] => 0
  | (_, value) :: fields => max (depth value) (fieldsDepth fields)

end

theorem itemsSorted_iff (items : List Value) : itemsSorted items = true ↔ ∀ item ∈ items, isSorted item = true := by
  induction items with
  | nil => simp [itemsSorted]
  | cons item items ih => simp [itemsSorted, ih]

theorem fieldsSorted_iff (fields : List (String × Value)) :
    fieldsSorted fields = true ↔ ∀ field ∈ fields, isSorted field.2 = true := by
  induction fields with
  | nil => simp [fieldsSorted]
  | cons field fields ih => simp [fieldsSorted, ih]

theorem itemsDepth_le_iff (items : List Value) (levels : Nat) :
    itemsDepth items ≤ levels ↔ ∀ item ∈ items, depth item ≤ levels := by
  induction items with
  | nil => simp [itemsDepth]
  | cons item items ih => rw [itemsDepth, Nat.max_le, ih, List.forall_mem_cons]

theorem fieldsDepth_le_iff (fields : List (String × Value)) (levels : Nat) :
    fieldsDepth fields ≤ levels ↔ ∀ field ∈ fields, depth field.2 ≤ levels := by
  induction fields with
  | nil => simp [fieldsDepth]
  | cons field fields ih => rw [fieldsDepth, Nat.max_le, ih, List.forall_mem_cons]

end Value

/-! ## Reading -/

theorem readText_eq_ok {α : Type} {reader : Reader α} {s : String} {a : α} : readText reader s = .ok a ↔
    reader (Document.ofString s).tree = .ok a ∧ (Document.ofString s).ending = .ok () := by
  have hfault : readText reader s = .ok a ↔ readFault reader s = .ok a := by
    rw [readText]
    cases readFault reader s with
    | error fault => exact iff_of_false nofun nofun
    | ok a' => exact ⟨fun h => congrArg Except.ok (Except.ok.inj h), fun h => congrArg Except.ok (Except.ok.inj h)⟩
  rw [hfault, readFault, bind_eq_ok]
  constructor
  · intro h
    obtain ⟨a', ha, h⟩ := h
    obtain ⟨_, hend, h⟩ := bind_eq_ok.1 h
    obtain rfl := Except.ok.inj h
    exact ⟨ha, hend⟩
  · intro h
    obtain ⟨ha, hend⟩ := h
    exact ⟨a, ha, bind_eq_ok.2 ⟨(), hend, rfl⟩⟩

section
variable {α : Type} {reader : Reader α}

theorem readElements_more {start : Nat} {item : Source} {rest : Elements} {as : List α} :
    (Elements.more start item rest).read reader = .ok as ↔
      ∃ a others, reader item = .ok a ∧ rest.read reader = .ok others ∧ a :: others = as := by
  simp only [Elements.read, bind_eq_ok, Except.ok.injEq, exists_and_left]

theorem readMembers_more {key : Key} {value : Source} {rest : Members} {fields : List (String × α)} :
    (Members.more key value rest).read reader = .ok fields ↔ ∃ name a others,
      key.name = .ok name ∧ reader value = .ok a ∧ rest.read reader = .ok others ∧ (name, a) :: others = fields := by
  simp only [Members.read, bind_eq_ok, Except.ok.injEq, exists_and_left]

end

section
variable {α : Type} {reader : Reader α} {good : α → Prop} (hreader : ∀ source a, reader source = .ok a → good a)
include hreader

theorem forall_of_readElements : ∀ (elements : Elements) (items : List α),
    elements.read reader = .ok items → ∀ item ∈ items, good item
  | .closed _, items, h => by
    obtain rfl : [] = items := Except.ok.inj h
    intro item hitem
    cases hitem
  | .flawed flaw _, items, h => by
    rw [Elements.read] at h
    cases h
  | .more _ source rest, items, h => by
    obtain ⟨first, others, hfirst, hothers, rfl⟩ := readElements_more.1 h
    exact List.forall_mem_cons.2 ⟨hreader source first hfirst, forall_of_readElements rest others hothers⟩

theorem forall_of_readMembers : ∀ (members : Members) (fields : List (String × α)),
    members.read reader = .ok fields → ∀ field ∈ fields, good field.2
  | .closed _, fields, h => by
    obtain rfl : [] = fields := Except.ok.inj h
    intro field hfield
    cases hfield
  | .flawed flaw, fields, h => by
    rw [Members.read] at h
    cases h
  | .more key source rest, fields, h => by
    obtain ⟨name, a, others, -, ha, hothers, rfl⟩ := readMembers_more.1 h
    exact List.forall_mem_cons.2 ⟨hreader source a ha, forall_of_readMembers rest others hothers⟩

end

/-- **What is read** is sorted, whatever the order of the text, and as deep as the reader may go at most. -/
theorem sorted_of_value : ∀ (levels : Nat) (source : Source) (v : Value),
    value levels source = .ok v → v.isSorted = true ∧ v.depth ≤ levels
  | _, .broken _, v, h => by
    rw [value] at h
    cases h
  | _, .null _, v, h | _, .boolean _ _, v, h => by
    rw [value] at h
    obtain rfl := Except.ok.inj h
    exact ⟨rfl, Nat.zero_le _⟩
  | _, .number _ _, v, h | _, .string _ _, v, h => by
    rw [value] at h
    obtain ⟨_, -, rfl⟩ := map_eq_ok.1 h
    exact ⟨rfl, Nat.zero_le _⟩
  | 0, .array _ _, v, h | 0, .object _ _, v, h => by
    rw [value] at h
    cases h
  | levels + 1, .array _ elements, v, h => by
    rw [value] at h
    obtain ⟨items, hitems, rfl⟩ := map_eq_ok.1 h
    have hall := forall_of_readElements (sorted_of_value levels) elements items hitems
    refine ⟨?_, Nat.succ_le_succ ?_⟩
    · exact (Value.itemsSorted_iff items).2 fun item hitem => (hall item hitem).1
    · exact (Value.itemsDepth_le_iff items levels).2 fun item hitem => (hall item hitem).2
  | levels + 1, .object _ members, v, h => by
    rw [value] at h
    obtain ⟨pairs, hpairs, rfl⟩ := map_eq_ok.1 h
    have hall : ∀ field ∈ Dictionary.ofPairs pairs, field.2.isSorted = true ∧ field.2.depth ≤ levels := by
      intro field hfield
      have hpair := Dictionary.mem_of_mem_ofPairs hfield
      exact forall_of_readMembers (sorted_of_value levels) members pairs hpairs field hpair
    refine ⟨?_, Nat.succ_le_succ ?_⟩
    · rw [Value.isSorted, decide_eq_true (Dictionary.ofPairs_isSorted pairs), Bool.true_and]
      exact (Value.fieldsSorted_iff _).2 fun field hfield => (hall field hfield).1
    · exact (Value.fieldsDepth_le_iff _ levels).2 fun field hfield => (hall field hfield).2

theorem sorted_of_ofText {text : String} {v : Value} (h : Value.ofText text = .ok v) :
    v.isSorted = true ∧ v.depth ≤ deepest := by
  exact sorted_of_value deepest _ v (readText_eq_ok.1 h).1

end Json

end WikiPress
