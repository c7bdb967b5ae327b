import WikiPress.Proofs.Pass

/-!
# Values in values

A pointer leads from a value to one inside it, by a key or an index at each step. A pass keeps the shape of a tree,
and what it leaves behind at the end of a pointer is as its change makes it.
-/

namespace WikiPress.Json

inductive PathStep where
  | key (name : String)
  | index (n : Nat)
  deriving DecidableEq, Repr

/-- What is left of a value without its scalars and without what is inside it. -/
inductive Shape where
  | null
  | boolean
  | number
  | string
  | array (length : Nat)
  | object (keys : List String)
  deriving DecidableEq, Repr

namespace Value

def child? : PathStep → Value → Option Value
  | .key name, .object fields => fields.lookup name
  | .index n, .array items => items[n]?
  | _, _ => none

def at? : List PathStep → Value → Option Value
  | [], value => some value
  | step :: pointer, value => (value.child? step).bind (at? pointer)

def shape : Value → Shape
  | .null => .null
  | .boolean _ => .boolean
  | .number _ => .number
  | .string _ => .string
  | .array items => .array items.length
  | .object fields => .object (fields.map Prod.fst)

def isScalar : Value → Bool
  | .array _ | .object _ => false
  | _ => true

theorem child?_of_isScalar {value : Value} (h : value.isScalar = true) (step : PathStep) :
    value.child? step = none := by
  cases value with
  | array => cases h
  | object => cases h
  | _ => cases step <;> rfl

theorem at?_of_isScalar {value : Value} (h : value.isScalar = true) (step : PathStep) (pointer : List PathStep) :
    value.at? (step :: pointer) = none := by
  rw [at?, child?_of_isScalar h, Option.bind_none]

theorem isScalar_of_shape {v w : Value} (h : v.shape = w.shape) (hw : w.isScalar = true) : v.isScalar = true := by
  cases w with
  | array => cases hw
  | object => cases hw
  | _ => cases v <;> simp_all [shape, isScalar]

end Value

end WikiPress.Json

namespace WikiPress.Upload

open Json (Value Fields PathStep)

/-! ## Steps into a changed tree -/

/-- The attributes that a pass changes at a step into a value. -/
def attrsAt? (types : List String) : PathStep → Value → Option Fields
  | .key "attrs", .object fields => attrsOf? types fields
  | _, _ => none

theorem attrsAt?_eq_some {types : List String} {step : PathStep} {value : Value} {attrs : Fields} :
    attrsAt? types step value = some attrs ↔
      step = .key "attrs" ∧ ∃ fields, value = .object fields ∧ attrsOf? types fields = some attrs := by
  constructor
  · intro h
    unfold attrsAt? at h
    split at h
    · exact ⟨rfl, _, rfl, h⟩
    · cases h
  · rintro ⟨rfl, fields, rfl, h⟩
    exact h

section
variable (types : List String) (change : Fields → Fields)

theorem lookup_changeAttrs {key : String} (h : key ≠ "attrs") (fields : Fields) :
    (changeAttrs types change fields).lookup key = fields.lookup key := by
  rw [changeAttrs_eq]
  cases attrsOf? types fields with
  | none => rfl
  | some attrs => exact (Dictionary.lookup_replace ..).trans (if_neg h)

theorem keys_changeAttrs (fields : Fields) :
    (changeAttrs types change fields).map Prod.fst = fields.map Prod.fst := by
  rw [changeAttrs_eq]
  cases attrsOf? types fields with
  | none => rfl
  | some attrs => exact Dictionary.keys_replace ..

theorem mapFields_eq (inner : Fields → Fields) (fields : Fields) :
    mapFields inner fields = fields.map fun field => (field.1, mapObjects inner field.2) := by
  induction fields with
  | nil => rfl
  | cons field fields ih => rw [mapFields, List.map_cons, ih]

theorem keys_mapFields (inner : Fields → Fields) (fields : Fields) :
    (mapFields inner fields).map Prod.fst = fields.map Prod.fst := by
  rw [mapFields_eq, List.map_map]
  rfl

theorem mapItems_eq (inner : Fields → Fields) (items : List Value) :
    mapItems inner items = items.map (mapObjects inner) := by
  induction items with
  | nil => rfl
  | cons item items ih => rw [mapItems, List.map_cons, ih]

theorem mapObjects_of_isScalar {value : Value} (h : value.isScalar = true) (inner : Fields → Fields) :
    mapObjects inner value = value := by
  cases value with
  | array => cases h
  | object => cases h
  | _ => rfl

theorem shape_mapObjects (value : Value) : (mapObjects (changeAttrs types change) value).shape = value.shape := by
  cases value with
  | array items => rw [mapObjects, Value.shape, Value.shape, mapItems_eq, List.length_map]
  | object fields => rw [mapObjects, Value.shape, Value.shape, keys_changeAttrs, keys_mapFields]
  | _ => rfl

theorem child?_mapObjects {step : PathStep} {value : Value} (h : attrsAt? types step value = none) :
    (mapObjects (changeAttrs types change) value).child? step =
      (value.child? step).map (mapObjects (changeAttrs types change)) := by
  cases value with
  | array items =>
    rw [mapObjects, mapItems_eq]
    cases step with
    | key => rfl
    | index n => exact List.getElem?_map ..
  | object fields =>
    rw [mapObjects]
    cases step with
    | index => rfl
    | key name =>
      rw [Value.child?, Value.child?, ← lookup_mapFields]
      by_cases hname : name = "attrs"
      · subst hname
        have hnone : attrsOf? types (mapFields (changeAttrs types change) fields) = none := by
          rw [attrsOf?_mapFields, show attrsOf? types fields = none from h]
          rfl
        rw [changeAttrs_eq, hnone]
      · exact lookup_changeAttrs types change hname _
  | _ => cases step <;> rfl

end

/-! ## What a pass leaves alone -/

section
variable {types : List String} {change : Fields → Fields} (h : Local change)
  (hchange : ∀ attrs, change (change attrs) = change attrs)
include h hchange

theorem Local.mapObjects_idempotent (tree : Value) :
    mapObjects (changeAttrs types change) (mapObjects (changeAttrs types change) tree) =
      mapObjects (changeAttrs types change) tree := by
  have htwice : change ∘ change = change := funext hchange
  rw [h.mapObjects_twice, htwice]

/-- An object that a pass leaves alone is left alone by the change, and so is all that is in it. -/
theorem Local.fixed_object {fields : Fields}
    (hfix : mapObjects (changeAttrs types change) (.object fields) = .object fields) :
    changeAttrs types change fields = fields ∧ mapFields (changeAttrs types change) fields = fields := by
  have hpost : changeAttrs types change (mapFields (changeAttrs types change) fields) = fields := by
    rw [mapObjects] at hfix
    injection hfix
  have htwice : change ∘ change = change := funext hchange
  have hhere : changeAttrs types change fields = fields :=
    calc changeAttrs types change fields
        = changeAttrs types change (changeAttrs types change (mapFields (changeAttrs types change) fields)) := by
          rw [hpost]
      _ = changeAttrs types change (mapFields (changeAttrs types change) fields) := by
          rw [changeAttrs_changeAttrs, htwice]
      _ = fields := hpost
  refine ⟨hhere, ?_⟩
  calc mapFields (changeAttrs types change) fields
      = mapFields (changeAttrs types change) (changeAttrs types change fields) := by rw [hhere]
    _ = changeAttrs types change (mapFields (changeAttrs types change) fields) :=
      h.mapFields_changeAttrs types change fields
    _ = fields := hpost

theorem Local.fixed_child {step : PathStep} {tree child : Value} (hchild : tree.child? step = some child)
    (hfix : mapObjects (changeAttrs types change) tree = tree) :
    mapObjects (changeAttrs types change) child = child := by
  cases tree with
  | array items =>
    cases step with
    | key => cases hchild
    | index n =>
      rw [mapObjects, mapItems_eq] at hfix
      injection hfix with hitems
      have hitem : items[n]? = some child := hchild
      have hmapped := congrArg (fun items : List Value => items[n]?) hitems
      simpa [hitem] using hmapped
  | object fields =>
    cases step with
    | index => cases hchild
    | key name =>
      have hfield : fields.lookup name = some child := hchild
      have hmapped := congrArg (List.lookup name) (h.fixed_object hchange hfix).2
      rw [lookup_mapFields, hfield] at hmapped
      simpa using hmapped
  | _ => cases step <;> cases hchild

theorem Local.fixed_at {tree : Value} (hfix : mapObjects (changeAttrs types change) tree = tree)
    {pointer : List PathStep} {value : Value} (hat : tree.at? pointer = some value) : mapObjects (changeAttrs types change) value = value := by
  induction pointer generalizing tree with
  | nil =>
    obtain rfl := Option.some.inj hat
    exact hfix
  | cons step pointer ih =>
    obtain ⟨child, hchild, hrest⟩ := Option.bind_eq_some_iff.1 hat
    exact ih (h.fixed_child hchange hchild hfix) hrest

/-- **What a pass leaves behind.** If its change changes nothing twice, all attributes are as the change makes them. -/
theorem Local.attrs_fixed {tree : Value} {pointer : List PathStep} {fields attrs : Fields}
    (hat : (mapObjects (changeAttrs types change) tree).at? pointer = some (.object fields))
    (hattrs : attrsOf? types fields = some attrs) : change attrs = attrs := by
  have hfix := h.fixed_at hchange (h.mapObjects_idempotent hchange tree) hat
  have hhere := (h.fixed_object hchange hfix).1
  rw [changeAttrs_eq, hattrs] at hhere
  have hlookup := congrArg (List.lookup "attrs") hhere
  rw [Dictionary.lookup_replace, if_pos rfl, (attrsOf?_eq_some.1 hattrs).2] at hlookup
  simpa using hlookup

end

end WikiPress.Upload
