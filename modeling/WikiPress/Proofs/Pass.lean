import WikiPress.Upload

/-!
# Passes over raw trees

A pass changes the attributes of the nodes of some types, and nothing that another change looks at. So one
pass after another is one pass with both changes, whatever objects stand in the attributes.
-/

namespace WikiPress

/-! ## Replaced fields -/

namespace Dictionary

variable {α : Type}

theorem replace_replace (key : String) (value value' : α) (entries : Dictionary α) :
    replace key value (replace key value' entries) = replace key value entries := by
  induction entries with
  | nil => rfl
  | cons entry rest ih =>
    obtain ⟨k, v⟩ := entry
    by_cases hk : k = key
    · simp [replace, hk]
    · simp [replace, hk, ih]

theorem replace_comm {key key' : String} (h : key ≠ key') (value value' : α) (entries : Dictionary α) :
    replace key value (replace key' value' entries) = replace key' value' (replace key value entries) := by
  induction entries with
  | nil => rfl
  | cons entry rest ih =>
    obtain ⟨k, v⟩ := entry
    by_cases hk : k = key
    · subst hk
      simp [replace, h]
    · by_cases hk' : k = key'
      · subst hk'
        simp [replace, hk]
      · simp [replace, hk, hk', ih]

end Dictionary

namespace Upload

open Json (Value Fields Number)

/-! ## Fields of a changed tree -/

section
variable (change : Fields → Fields)

theorem lookup_mapFields (key : String) (fields : Fields) :
    (mapFields change fields).lookup key = (fields.lookup key).map (mapObjects change) := by
  induction fields with
  | nil => rfl
  | cons field fields ih =>
    obtain ⟨k, value⟩ := field
    rw [mapFields, Dictionary.lookup_cons, Dictionary.lookup_cons, ih]
    split <;> rfl

theorem mapFields_replace (key : String) (value : Value) (fields : Fields) :
    mapFields change (Dictionary.replace key value fields) =
      Dictionary.replace key (mapObjects change value) (mapFields change fields) := by
  induction fields with
  | nil => rfl
  | cons field fields ih =>
    obtain ⟨k, v⟩ := field
    by_cases hk : k = key
    · simp [Dictionary.replace, mapFields, hk]
    · simp [Dictionary.replace, mapFields, hk, ih]

theorem text?_mapFields (key : String) (fields : Fields) :
    Fields.text? key (mapFields change fields) = fields.text? key := by
  rw [Fields.text?, Fields.text?, lookup_mapFields]
  cases fields.lookup key with
  | none => rfl
  | some value => cases value <;> rfl

end

theorem text?_replace_of_ne {key key' : String} (h : key ≠ key') (value : Value) (fields : Fields) :
    Fields.text? key (Dictionary.replace key' value fields) = fields.text? key := by
  rw [Fields.text?, Dictionary.lookup_replace, if_neg h, Fields.text?]

/-! ## One pass after another -/

mutual

/-- Two passes are one, if the second change may be made before what is in an object is changed by the first. -/
theorem mapObjects_mapObjects {first second : Fields → Fields}
    (h : ∀ fields, mapFields second (first fields) = first (mapFields second fields)) :
    ∀ value, mapObjects second (mapObjects first value) = mapObjects (second ∘ first) value
  | .array items => by simp only [mapObjects, mapItems_mapItems h items]
  | .object fields => by
    simp only [mapObjects, h, mapFields_mapFields h fields]
    rfl
  | .null => rfl
  | .boolean _ => rfl
  | .number _ => rfl
  | .string _ => rfl

theorem mapItems_mapItems {first second : Fields → Fields}
    (h : ∀ fields, mapFields second (first fields) = first (mapFields second fields)) :
    ∀ items, mapItems second (mapItems first items) = mapItems (second ∘ first) items
  | [] => rfl
  | value :: values => by simp only [mapItems, mapObjects_mapObjects h value, mapItems_mapItems h values]

theorem mapFields_mapFields {first second : Fields → Fields}
    (h : ∀ fields, mapFields second (first fields) = first (mapFields second fields)) :
    ∀ fields : List (String × Value), mapFields second (mapFields first fields) = mapFields (second ∘ first) fields
  | [] => rfl
  | (_, value) :: fields => by simp only [mapFields, mapObjects_mapObjects h value, mapFields_mapFields h fields]

end

/-! ## Attributes -/

theorem hasType_iff {types : List String} {fields : Fields} :
    hasType types fields = true ↔ ∃ type ∈ types, fields.lookup "type" = some (.string type) := by
  simp only [← Fields.text?_eq_some, hasType]
  cases Fields.text? "type" fields with
  | none => simp
  | some type => simp

/-- The attributes that a pass changes: those of a node of one of the types. -/
def attrsOf? (types : List String) (fields : Fields) : Option Fields :=
  if hasType types fields then
    match fields.lookup "attrs" with
    | some (.object attrs) => some attrs
    | _ => none
  else none

section
variable {types : List String} {fields attrs : Fields}

theorem attrsOf?_eq_some : attrsOf? types fields = some attrs ↔
    (∃ type ∈ types, fields.lookup "type" = some (.string type)) ∧ fields.lookup "attrs" = some (.object attrs) := by
  rw [← hasType_iff, attrsOf?]
  cases fields.lookup "attrs" with
  | none => simp
  | some value => cases value <;> simp

theorem changeAttrs_eq (types : List String) (change : Fields → Fields) (fields : Fields) :
    changeAttrs types change fields =
      match attrsOf? types fields with
      | some attrs => Dictionary.replace "attrs" (.object (change attrs)) fields
      | none => fields := by
  unfold changeAttrs attrsOf?
  by_cases ht : hasType types fields = true
  · rw [if_pos ht, if_pos ht]
    cases fields.lookup "attrs" with
    | none => rfl
    | some value => cases value <;> rfl
  · rw [if_neg ht, if_neg ht]

theorem attrsOf?_congr {fields' : Fields} (ht : Fields.text? "type" fields = Fields.text? "type" fields')
    (ha : fields.lookup "attrs" = fields'.lookup "attrs") : attrsOf? types fields = attrsOf? types fields' := by
  rw [attrsOf?, attrsOf?, hasType, hasType, ht, ha]

theorem attrsOf?_replace (h : attrsOf? types fields = some attrs) (attrs' : Fields) :
    attrsOf? types (Dictionary.replace "attrs" (.object attrs') fields) = some attrs' := by
  obtain ⟨⟨type, hmem, ht⟩, ha⟩ := attrsOf?_eq_some.1 h
  refine attrsOf?_eq_some.2 ⟨⟨type, hmem, ?_⟩, ?_⟩
  · rwa [Dictionary.lookup_replace, if_neg (by decide)]
  · rw [Dictionary.lookup_replace, if_pos rfl, ha]
    rfl

theorem attrsOf?_mapFields (types : List String) (change : Fields → Fields) (fields : Fields) :
    attrsOf? types (mapFields change fields) = (attrsOf? types fields).map (change ∘ mapFields change) := by
  unfold attrsOf?
  rw [hasType, text?_mapFields, ← hasType, lookup_mapFields]
  split
  · cases fields.lookup "attrs" with
    | none => rfl
    | some value => cases value <;> rfl
  · rfl

theorem changeAttrs_changeAttrs (types : List String) (change change' : Fields → Fields) (fields : Fields) :
    changeAttrs types change (changeAttrs types change' fields) = changeAttrs types (change ∘ change') fields := by
  rw [changeAttrs_eq types change', changeAttrs_eq types (change ∘ change')]
  cases h : attrsOf? types fields with
  | none => simp only [changeAttrs_eq, h]
  | some attrs => simp only [changeAttrs_eq, attrsOf?_replace h, Dictionary.replace_replace, Function.comp_apply]

end

/-! ## Changes that do not meet -/

/-- A change of attributes that neither touches nor looks at what makes them a node with attributes of its own,
and for which it does not matter what is in the objects among them. -/
structure Local (change : Fields → Fields) : Prop where
  type : ∀ attrs, Fields.text? "type" (change attrs) = Fields.text? "type" attrs
  attrs : ∀ attrs, (change attrs).lookup "attrs" = attrs.lookup "attrs"
  replace : ∀ value attrs,
    change (Dictionary.replace "attrs" value attrs) = Dictionary.replace "attrs" value (change attrs)
  map : ∀ (inner : Fields → Fields) attrs, change (mapFields inner attrs) = mapFields inner (change attrs)

section
variable {types : List String} {change : Fields → Fields} (h : Local change)
include h

theorem Local.changeAttrs_comm (types' : List String) (change' : Fields → Fields) (attrs : Fields) :
    changeAttrs types' change' (change attrs) = change (changeAttrs types' change' attrs) := by
  rw [changeAttrs_eq, changeAttrs_eq, attrsOf?_congr (h.type attrs) (h.attrs attrs)]
  cases attrsOf? types' attrs with
  | none => rfl
  | some inner => exact (h.replace (.object (change' inner)) attrs).symm

theorem Local.mapFields_changeAttrs (types' : List String) (change' : Fields → Fields) (fields : Fields) :
    mapFields (changeAttrs types' change') (changeAttrs types change fields) =
      changeAttrs types change (mapFields (changeAttrs types' change') fields) := by
  rw [changeAttrs_eq types change, changeAttrs_eq types change, attrsOf?_mapFields]
  cases attrsOf? types fields with
  | none => rfl
  | some attrs =>
    simp only [Option.map_some, Function.comp_apply, mapFields_replace, mapObjects]
    rw [← h.map, h.changeAttrs_comm]

/-- **One pass after another.** Both passes are one that makes both changes of every node. -/
theorem Local.mapObjects_changeAttrs (types' : List String) (change' : Fields → Fields) (tree : Value) :
    mapObjects (changeAttrs types' change') (mapObjects (changeAttrs types change) tree) =
      mapObjects (changeAttrs types' change' ∘ changeAttrs types change) tree :=
  mapObjects_mapObjects (h.mapFields_changeAttrs types' change') tree

theorem Local.mapObjects_twice (tree : Value) :
    mapObjects (changeAttrs types change) (mapObjects (changeAttrs types change) tree) =
      mapObjects (changeAttrs types (change ∘ change)) tree := by
  have htwice : changeAttrs types change ∘ changeAttrs types change = changeAttrs types (change ∘ change) :=
    funext fun fields => changeAttrs_changeAttrs types change change fields
  rw [h.mapObjects_changeAttrs, htwice]

end

end Upload

end WikiPress
