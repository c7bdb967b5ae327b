import WikiPress.Proofs.Grammar
import WikiPress.Proofs.Rewritten

/-!
# Trees without sizes

The numbers under `width` and `height` are made all the same, at any depth. Two trees that agree apart from these are
read alike, and the pass that narrows wide media changes nothing else.
-/

namespace WikiPress

open Json (Value Fields Cause)
open Upload (mapObjects mapItems mapFields)

/-! ## Sizes -/

namespace Json

def isSize (key : String) : Bool :=
  key = "width" || key = "height"

/-- All sizes are one; what is no number is no size. -/
def Value.blankSize : Value → Value
  | .number _ => .number (.integer 0)
  | value => value

def Fields.blankSizes (fields : Fields) : Fields :=
  fields.map fun (key, value) => (key, if isSize key then value.blankSize else value)

def Value.unsized (value : Value) : Value :=
  mapObjects Fields.blankSizes value

def Fields.unsized (fields : Fields) : Fields :=
  Fields.blankSizes (mapFields Fields.blankSizes fields)

namespace Fields

variable {fields : Fields}

theorem lookup_blankSizes (key : String) (fields : Fields) :
    (blankSizes fields).lookup key =
      (fields.lookup key).map fun value => if isSize key then value.blankSize else value := by
  induction fields with
  | nil => rfl
  | cons field fields ih =>
    obtain ⟨k, value⟩ := field
    rw [blankSizes, List.map_cons, ← blankSizes, Dictionary.lookup_cons, Dictionary.lookup_cons, ih]
    by_cases h : key = k
    · subst h
      rw [if_pos rfl, if_pos rfl, Option.map_some]
    · rw [if_neg h, if_neg h]

theorem lookup_unsized {key : String} (h : isSize key = false) (fields : Fields) :
    (unsized fields).lookup key = (fields.lookup key).map Value.unsized := by
  rw [unsized, lookup_blankSizes, Upload.lookup_mapFields, Option.map_map, h]
  rfl

@[simp] theorem text?_unsized (key : String) (fields : Fields) : (unsized fields).text? key = fields.text? key := by
  rw [text?, text?, unsized, lookup_blankSizes, Upload.lookup_mapFields]
  cases fields.lookup key with
  | none => rfl
  | some value => cases value <;> cases isSize key <;> simp [Value.blankSize, mapObjects]

/-- A number in the place of a size. -/
theorem blankSizes_replace {key : String} (hkey : isSize key = true) {n m : Json.Number}
    (h : fields.lookup key = some (.number m)) :
    blankSizes (Dictionary.replace key (.number n) fields) = blankSizes fields := by
  induction fields with
  | nil => rfl
  | cons field fields ih =>
    obtain ⟨k, value⟩ := field
    rw [Dictionary.lookup_cons] at h
    by_cases hk : key = k
    · subst hk
      rw [if_pos rfl] at h
      cases h
      simp [Dictionary.replace, blankSizes, hkey, Value.blankSize]
    · rw [if_neg hk] at h
      rw [Dictionary.replace, if_neg (Ne.symm hk)]
      exact congrArg ((k, if isSize k then value.blankSize else value) :: ·) (ih h)

end Fields

end Json

/-! ## Narrowed trees -/

namespace Upload

open Json (isSize)

theorem blankSizes_clampWidth (limit : Nat) (attrs : Fields) :
    Fields.blankSizes (clampWidth limit attrs) = Fields.blankSizes attrs := by
  rw [clampWidth_eq]
  cases h : excess? limit attrs with
  | none => rfl
  | some width =>
    have hwidth := (excess?_eq_some.1 h).1
    unfold narrowed
    cases hheight : Fields.number? "height" attrs with
    | none => exact Fields.blankSizes_replace rfl hwidth
    | some height =>
      have hlookup : (Dictionary.replace "width" (.number (.integer limit)) attrs).lookup "height" =
          some (.number height) := by
        rw [Dictionary.lookup_replace, if_neg (by decide), Fields.number?_eq_some.1 hheight]
      exact (Fields.blankSizes_replace rfl hlookup).trans (Fields.blankSizes_replace rfl hwidth)

theorem mapFields_blankSizes_changeAttrs (types : List String) (limit : Nat) (fields : Fields) :
    mapFields Fields.blankSizes (changeAttrs types (clampWidth limit) fields) = mapFields Fields.blankSizes fields := by
  rw [changeAttrs_eq]
  cases h : attrsOf? types fields with
  | none => rfl
  | some attrs =>
    have hattrs : mapObjects Fields.blankSizes (.object (clampWidth limit attrs)) =
        mapObjects Fields.blankSizes (.object attrs) := by
      rw [mapObjects, mapObjects, ← (clampWidth_local limit).map, blankSizes_clampWidth]
    have hlookup : (mapFields Fields.blankSizes fields).lookup "attrs" =
        some (mapObjects Fields.blankSizes (.object attrs)) := by
      rw [lookup_mapFields, (attrsOf?_eq_some.1 h).2, Option.map_some]
    simp only
    rw [mapFields_replace, hattrs, Dictionary.replace_of_lookup hlookup]

section
variable (types : List String) (limit : Nat)

mutual

theorem unsized_mapObjects : ∀ value : Value,
    (mapObjects (changeAttrs types (clampWidth limit)) value).unsized = value.unsized
  | .array items => congrArg Value.array (unsized_mapItems items)
  | .object fields => by
    simp only [mapObjects, Value.unsized, mapFields_blankSizes_changeAttrs, unsized_mapFields fields]
  | .null | .boolean _ | .number _ | .string _ => rfl

theorem unsized_mapItems : ∀ items : List Value,
    mapItems Fields.blankSizes (mapItems (changeAttrs types (clampWidth limit)) items) =
      mapItems Fields.blankSizes items
  | [] => rfl
  | value :: values => congrArg₂ List.cons (unsized_mapObjects value) (unsized_mapItems values)

theorem unsized_mapFields : ∀ fields : List (String × Value),
    mapFields Fields.blankSizes (mapFields (changeAttrs types (clampWidth limit)) fields) =
      mapFields Fields.blankSizes fields
  | [] => rfl
  | (key, value) :: fields =>
    congrArg₂ (fun value fields => (key, value) :: fields) (unsized_mapObjects value) (unsized_mapFields fields)

end

end

/-- The pass that narrows wide media changes sizes only. -/
theorem unsized_clampWidths (limit : Option Nat) (tree : Value) : (clampWidths limit tree).unsized = tree.unsized := by
  cases limit with
  | none => rfl
  | some limit =>
    obtain rfl | hpos := Nat.eq_zero_or_pos limit
    · rfl
    · rw [clampWidths_pos hpos, unsized_mapObjects]

end Upload

/-! ## Nodes without sizes -/

def Mark.unsized (mark : Mark) : Mark :=
  { mark with attrs := mark.attrs.unsized }

namespace Node

mutual

def unsized : Node → Node
  | ⟨type, attrs, content, marks, text⟩ =>
    ⟨type, attrs.unsized, unsizedAll content, marks.map Mark.unsized, text⟩

def unsizedAll : List Node → List Node
  | [] => []
  | node :: nodes => unsized node :: unsizedAll nodes

end

end Node

/-! ## Reading -/

namespace Json.Value

section
variable (field : Option Value)

@[simp] theorem textField_unsized (default : String) :
    textField default (field.map unsized) = textField default field := by
  obtain _ | value := field
  · rfl
  · cases value <;> rfl

@[simp] theorem optionalTextField_unsized : optionalTextField (field.map unsized) = optionalTextField field := by
  obtain _ | value := field
  · rfl
  · cases value <;> rfl

@[simp] theorem fieldsField_unsized : fieldsField (field.map unsized) = Fields.unsized <$> fieldsField field := by
  obtain _ | value := field
  · rfl
  · cases value <;> rfl

end

theorem unsized_object (fields : Fields) : (Value.object fields).unsized = .object fields.unsized :=
  rfl

theorem unsized_array (items : List Value) : (Value.array items).unsized = .array (items.map unsized) :=
  congrArg Value.array (Upload.mapItems_eq ..)

end Json.Value

namespace Mark

theorem ofValue_unsized (value : Value) : ofValue value.unsized = unsized <$> ofValue value := by
  cases value with
  | object fields =>
    rw [Value.unsized_object, ofValue, ofValue]
    simp (disch := decide) only [Fields.lookup_unsized, Value.textField_unsized, Value.fieldsField_unsized,
      bind_map_left, map_bind]
    rfl
  | array items =>
    rw [Value.unsized_array, ofValue, ofValue]
    simp only [List.getElem?_map, List.length_map, Value.textField_unsized, Value.fieldsField_unsized, bind_map_left,
      map_bind]
    split <;> rfl
  | _ => rfl

theorem listOfValues_unsized (values : List Value) :
    listOfValues (values.map Value.unsized) = List.map unsized <$> listOfValues values := by
  induction values with
  | nil => rfl
  | cons value values ih =>
    rw [List.map_cons, listOfValues, listOfValues, ofValue_unsized, ih]
    simp only [bind_map_left, map_bind]
    rfl

theorem listOfField_unsized (field : Option Value) :
    listOfField (field.map Value.unsized) = List.map unsized <$> listOfField field := by
  obtain _ | value := field
  · rfl
  · cases value with
    | array items =>
      rw [Option.map_some, Value.unsized_array]
      exact listOfValues_unsized items
    | _ => rfl

end Mark

namespace Node

mutual

theorem ofValue_unsized : ∀ value : Value, ofValue value.unsized = unsized <$> ofValue value
  | .object fields => by
    rw [Value.unsized_object, ofValue, ofValue]
    simp (disch := decide) only [Fields.lookup_unsized, Value.textField_unsized, Value.optionalTextField_unsized,
      Value.fieldsField_unsized, Mark.listOfField_unsized, contentOfFields_unsized fields, bind_map_left, map_bind]
    rfl
  | .array items => by
    rw [Value.unsized_array, ofValue, ofValue]
    simp only [List.getElem?_map, List.length_map, Value.textField_unsized, Value.optionalTextField_unsized,
      Value.fieldsField_unsized, Mark.listOfField_unsized, contentOfItems_unsized items, bind_map_left, map_bind]
    split <;> rfl
  | .null | .boolean _ | .number _ | .string _ => rfl

theorem contentOfFields_unsized : ∀ fields : List (String × Value),
    contentOfFields (Fields.unsized fields) = unsizedAll <$> contentOfFields fields
  | [] => rfl
  | (key, value) :: fields => by
    have hcons : Fields.unsized ((key, value) :: fields) =
        (key, if Json.isSize key then value.unsized.blankSize else value.unsized) :: Fields.unsized fields := rfl
    rw [hcons, contentOfFields, contentOfFields, contentOfFields_unsized fields]
    split
    · rename_i h
      subst h
      exact contentOf_unsized value
    · rfl

theorem contentOfItems_unsized : ∀ (items : List Value) (index : Nat),
    contentOfItems index (items.map Value.unsized) = unsizedAll <$> contentOfItems index items
  | [], _ => rfl
  | value :: _, 0 => contentOf_unsized value
  | _ :: values, index + 1 => contentOfItems_unsized values index

theorem contentOf_unsized : ∀ value : Value, contentOf value.unsized = unsizedAll <$> contentOf value
  | .array items => by
    rw [Value.unsized_array]
    exact listOfValues_unsized items
  | .null | .object _ | .boolean _ | .number _ | .string _ => rfl

theorem listOfValues_unsized : ∀ values : List Value,
    listOfValues (values.map Value.unsized) = unsizedAll <$> listOfValues values
  | [] => rfl
  | value :: values => by
    rw [List.map_cons, listOfValues, listOfValues, ofValue_unsized value, listOfValues_unsized values]
    simp only [bind_map_left, map_bind]
    rfl

end

end Node

end WikiPress
