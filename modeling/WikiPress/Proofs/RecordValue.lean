import Mathlib.Data.List.Forall2
import WikiPress.Document.Reading
import WikiPress.Proofs.AsRead

/-!
# Records as values

A record is an object, or the array of its fields in their order. Its fields may be absent or `null`, and then give a
default; otherwise they hold a value of some form, or a list of values that are read one by one.
-/

namespace WikiPress

theorem lookup_zip {α : Type} {name : String} {names : List String} (h : names.Nodup) (items : List α) :
    ∀ {i : Nat}, names[i]? = some name → (names.zip items).lookup name = items[i]? := by
  induction names generalizing items with
  | nil => nofun
  | cons first names ih =>
    obtain ⟨hfirst, hnames⟩ := List.nodup_cons.1 h
    intro i hi
    cases items with
    | nil => rfl
    | cons item items =>
      rw [List.zip_cons_cons, Dictionary.lookup_cons]
      cases i with
      | zero => rw [if_pos (Option.some.inj hi).symm]; rfl
      | succ i =>
        have hne : name ≠ first := by
          intro he
          subst he
          exact hfirst (List.mem_of_getElem? hi)
        rw [if_neg hne]
        exact ih hnames items hi

namespace Json.Value

/-- The fields of a record: those of an object, or the elements of an array, in the order of the names and perhaps
not for all of them. -/
def recordFields? (names : List String) : Value → Option Fields
  | .object fields => some fields
  | .array items => if items.length ≤ names.length then some (names.zip items) else none
  | _ => none

/-- A field is absent or `null`, or its value is as it should be. -/
inductive Admits (p : Value → Prop) : Option Value → Prop
  | absent : Admits p none
  | null : Admits p (some .null)
  | held {value : Value} (h : p value) : Admits p (some value)

/-- What a field gives: a default where it is absent or `null`, and else what its value is read as. -/
inductive Supplies {α : Type} (default : α) (reads : Value → α → Prop) : Option Value → α → Prop
  | absent : Supplies default reads none default
  | null : Supplies default reads (some .null) default
  | held {value : Value} {a : α} (h : reads value a) : Supplies default reads (some value) a

inductive ArrayOf (p : Value → Prop) : Value → Prop
  | array {items : List Value} (h : ∀ item ∈ items, p item) : ArrayOf p (.array items)

/-- An array of values that are read one by one. -/
inductive Lists {α : Type} (reads : Value → α → Prop) : Value → List α → Prop
  | array {items : List Value} {as : List α} (h : items.Forall₂ reads as) : Lists reads (.array items) as

def IsText (value : Value) : Prop :=
  ∃ s, value = .string s

def IsObject (value : Value) : Prop :=
  ∃ fields, value = .object fields

/-! ## Fields -/

section
variable {α : Type} {default : α} {reads reads' : Value → α → Prop} {p : Value → Prop} {field : Option Value} {a : α}

theorem admits_iff (default : α) (h : ∀ value, field = some value → (p value ↔ ∃ a, reads value a)) :
    Admits p field ↔ ∃ a, Supplies default reads field a := by
  constructor
  · intro hp
    cases hp with
    | absent => exact ⟨default, .absent⟩
    | null => exact ⟨default, .null⟩
    | held hp =>
      obtain ⟨a, ha⟩ := (h _ rfl).1 hp
      exact ⟨a, .held ha⟩
  · intro ⟨a, ha⟩
    cases ha with
    | absent => exact .absent
    | null => exact .null
    | held ha => exact .held ((h _ rfl).2 ⟨a, ha⟩)

theorem Supplies.imp (h : ∀ value, field = some value → ∀ a, reads value a → reads' value a)
    (ha : Supplies default reads field a) : Supplies default reads' field a := by
  cases ha with
  | absent => exact .absent
  | null => exact .null
  | held ha => exact .held (h _ rfl _ ha)

theorem supplies_congr (h : ∀ value, field = some value → ∀ a, reads value a ↔ reads' value a) :
    Supplies default reads field a ↔ Supplies default reads' field a :=
  ⟨.imp fun value hv a => (h value hv a).1, .imp fun value hv a => (h value hv a).2⟩

/-- A reader of fields that takes absence and `null` for the default. -/
theorem field_eq_ok {read : Option Value → Except Cause α} (absent : read none = .ok default)
    (null : read (some .null) = .ok default) (not_null : ∀ a, ¬reads .null a)
    (held : ∀ value, value ≠ .null → ∀ a, read (some value) = .ok a ↔ reads value a) :
    read field = .ok a ↔ Supplies default reads field a := by
  constructor
  · intro h
    cases field with
    | none =>
      obtain rfl := Except.ok.inj (absent.symm.trans h)
      exact .absent
    | some value =>
      by_cases hv : value = .null
      · subst hv
        obtain rfl := Except.ok.inj (null.symm.trans h)
        exact .null
      · exact .held ((held value hv a).1 h)
  · intro h
    cases h with
    | absent => exact absent
    | null => exact null
    | @held value _ ha =>
      refine (held value ?_ a).2 ha
      intro hv
      subst hv
      exact not_null a ha

end

section
variable {field : Option Value}

theorem textField_eq_ok {default s : String} :
    textField default field = .ok s ↔ Supplies default (· = .string ·) field s := by
  refine field_eq_ok rfl rfl (fun _ h => nomatch h) ?_
  intro value hv s
  cases value <;> simp_all [textField, refuse]

theorem optionalTextField_eq_ok {text : Option String} :
    optionalTextField field = .ok text ↔
      Supplies none (fun v text => ∃ s, v = .string s ∧ text = some s) field text := by
  refine field_eq_ok rfl rfl (fun _ ⟨_, h, _⟩ => nomatch h) ?_
  intro value hv text
  cases value <;> simp_all [optionalTextField, refuse, eq_comm]

theorem fieldsField_eq_ok {entries : Fields} :
    fieldsField field = .ok entries ↔ Supplies [] (· = .object ·) field entries := by
  refine field_eq_ok rfl rfl (fun _ h => nomatch h) ?_
  intro value hv entries
  cases value <;> simp_all [fieldsField, refuse]

theorem admits_text : Admits IsText field ↔ ∃ s, Supplies "" (· = .string ·) field s :=
  admits_iff "" fun _ _ => Iff.rfl

theorem admits_optionalText :
    Admits IsText field ↔ ∃ text, Supplies none (fun v text => ∃ s, v = .string s ∧ text = some s) field text := by
  apply admits_iff none
  intro value _
  constructor
  · intro ⟨s, hs⟩
    exact ⟨some s, s, hs, rfl⟩
  · intro ⟨_, s, hs, _⟩
    exact ⟨s, hs⟩

theorem admits_object : Admits IsObject field ↔ ∃ entries, Supplies [] (· = .object ·) field entries :=
  admits_iff [] fun _ _ => Iff.rfl

end

/-! ## Lists -/

section
variable {α : Type} {reads reads' : Value → α → Prop} {value : Value} {as : List α}

theorem mapM_eq_ok {read : Value → Except Cause α} : ∀ {items : List Value} {as : List α},
    items.mapM read = .ok as ↔ items.Forall₂ (read · = .ok ·) as
  | [], as => by
    rw [List.mapM_nil, List.forall₂_nil_left_iff]
    exact ⟨fun h => (Except.ok.inj h).symm, fun h => congrArg Except.ok h.symm⟩
  | item :: items, as => by
    rw [List.mapM_cons, bind_eq_ok, List.forall₂_cons_left_iff]
    constructor
    · intro ⟨a, ha, h⟩
      obtain ⟨rest, hrest, h⟩ := bind_eq_ok.1 h
      exact ⟨a, rest, ha, mapM_eq_ok.1 hrest, (Except.ok.inj h).symm⟩
    · intro ⟨a, rest, ha, hrest, h⟩
      subst h
      exact ⟨a, ha, bind_eq_ok.2 ⟨rest, mapM_eq_ok.2 hrest, rfl⟩⟩

theorem lists_iff : Lists reads value as ↔ ∃ items, value = .array items ∧ items.Forall₂ reads as := by
  constructor
  · intro h
    cases h with
    | array h => exact ⟨_, rfl, h⟩
  · intro ⟨items, hv, h⟩
    subst hv
    exact ⟨h⟩

theorem Lists.imp (h : ∀ items, value = .array items → ∀ item ∈ items, ∀ a, reads item a → reads' item a)
    (hlist : Lists reads value as) : Lists reads' value as := by
  cases hlist with
  | array hall =>
    refine ⟨?_⟩
    replace h := h _ rfl
    induction hall with
    | nil => exact .nil
    | cons ha _ ih =>
      obtain ⟨hfirst, hrest⟩ := List.forall_mem_cons.1 h
      exact .cons (hfirst _ ha) (ih hrest)

theorem lists_congr (h : ∀ items, value = .array items → ∀ item ∈ items, ∀ a, reads item a ↔ reads' item a) :
    Lists reads value as ↔ Lists reads' value as :=
  ⟨.imp fun items he item hi a => (h items he item hi a).1, .imp fun items he item hi a => (h items he item hi a).2⟩

theorem exists_forall₂_iff {items : List Value} :
    (∃ as, items.Forall₂ reads as) ↔ ∀ item ∈ items, ∃ a, reads item a := by
  induction items with
  | nil => exact iff_of_true ⟨[], .nil⟩ nofun
  | cons item items ih =>
    rw [List.forall_mem_cons, ← ih]
    constructor
    · intro ⟨as, h⟩
      cases h with
      | cons ha has => exact ⟨⟨_, ha⟩, ⟨_, has⟩⟩
    · intro ⟨⟨a, ha⟩, ⟨as, has⟩⟩
      exact ⟨a :: as, .cons ha has⟩

theorem arrayOf_iff {p : Value → Prop}
    (h : ∀ items, value = .array items → ∀ item ∈ items, (p item ↔ ∃ a, reads item a)) :
    ArrayOf p value ↔ ∃ as, Lists reads value as := by
  constructor
  · intro hp
    cases hp with
    | array hall =>
      obtain ⟨as, has⟩ := exists_forall₂_iff.2 fun item hitem => (h _ rfl item hitem).1 (hall item hitem)
      exact ⟨as, .array has⟩
  · intro ⟨as, hlist⟩
    cases hlist with
    | array hall =>
      have hread := exists_forall₂_iff.1 ⟨as, hall⟩
      exact .array fun item hitem => (h _ rfl item hitem).2 (hread item hitem)

end

/-! ## Records -/

/-- A reader of records that reads an array as the object whose fields are its elements. -/
theorem record_eq_ok {α : Type} {names : List String} {read : Value → Except Cause α} {a : α}
    (array : ∀ items, read (.array items) = .ok a ↔
      items.length ≤ names.length ∧ read (.object (names.zip items)) = .ok a)
    (other : ∀ value, (∀ fields, value ≠ .object fields) → (∀ items, value ≠ .array items) → read value ≠ .ok a)
    {value : Value} :
    read value = .ok a ↔ ∃ fields, value.recordFields? names = some fields ∧ read (.object fields) = .ok a := by
  cases value with
  | object fields =>
    constructor
    · intro h
      exact ⟨fields, rfl, h⟩
    · intro ⟨_, hform, h⟩
      cases hform
      exact h
  | array items =>
    rw [array, recordFields?]
    constructor
    · intro ⟨hlength, h⟩
      exact ⟨_, if_pos hlength, h⟩
    · intro ⟨fields, hform, h⟩
      obtain ⟨hlength, ⟨⟩⟩ := Option.ite_none_right_eq_some.1 hform
      exact ⟨hlength, h⟩
  | _ =>
    refine iff_of_false (other _ nofun nofun) ?_
    intro ⟨_, hform, _⟩
    cases hform

theorem sizeOf_recordField {names : List String} {value field : Value} {fields : Fields} {name : String}
    (form : value.recordFields? names = some fields) (h : fields.lookup name = some field) :
    sizeOf field < sizeOf value := by
  obtain ⟨before, after, he, -⟩ := List.lookup_eq_some_iff.1 h
  have hmem : (name, field) ∈ fields := by simp [he]
  cases value with
  | object fields =>
    obtain ⟨⟩ := form
    have := List.sizeOf_lt_of_mem hmem
    simp only [Value.object.sizeOf_spec, Prod.mk.sizeOf_spec] at this ⊢
    omega
  | array items =>
    obtain ⟨-, ⟨⟩⟩ := Option.ite_none_right_eq_some.1 form
    have := List.sizeOf_lt_of_mem (List.of_mem_zip hmem).2
    simp only [Value.array.sizeOf_spec]
    omega
  | _ => cases form

/-- Induction over what the fields of a record list. -/
theorem record_induction {motive : Value → Prop}
    (step : ∀ value, (∀ {names fields name items item}, value.recordFields? names = some fields →
      fields.lookup name = some (.array items) → item ∈ items → motive item) → motive value) (value : Value) :
    motive value :=
  step value fun {_ _ _ _ item} _ _ _ => record_induction step item
termination_by sizeOf value
decreasing_by
  rename_i form hfield hitem
  have hlist := sizeOf_recordField form hfield
  have hsize := List.sizeOf_lt_of_mem hitem
  simp only [Value.array.sizeOf_spec] at hlist
  omega

end Json.Value

end WikiPress
