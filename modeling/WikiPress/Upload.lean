import WikiPress.Json.Value

/-!
# Preparing pages for upload

Passes over the raw tree of a page before it goes back to the wiki. They work on values and not on
nodes, so that fields nobody knows survive. A pass changes one attribute value for another; it never
adds or drops a field.
-/

namespace WikiPress.Upload

open Json (Value Fields Number)

/-! ## Passes -/

mutual

def mapObjects (change : Fields → Fields) : Value → Value
  | .array items => .array (mapItems change items)
  | .object fields => .object (change (mapFields change fields))
  | value => value

def mapItems (change : Fields → Fields) : List Value → List Value
  | [] => []
  | value :: values => mapObjects change value :: mapItems change values

def mapFields (change : Fields → Fields) : List (String × Value) → List (String × Value)
  | [] => []
  | (key, value) :: fields => (key, mapObjects change value) :: mapFields change fields

end

def hasType (types : List String) (fields : Fields) : Bool :=
  match fields.text? "type" with
  | some type => types.contains type
  | none => false

def changeAttrs (types : List String) (change : Fields → Fields) (fields : Fields) : Fields :=
  if hasType types fields then
    match fields.lookup "attrs" with
    | some (.object attrs) => Dictionary.replace "attrs" (.object (change attrs)) fields
    | _ => fields
  else fields

/-! ## Attachment ids -/

/-- The attributes of a medium of the attachments whose id is a known name get the id for the name. -/
def substituteId (ids : Dictionary String) (attrs : Fields) : Fields :=
  match attrs.text? "collection", (attrs.text? "id").bind fun id => List.lookup id ids with
  | some "attachments", some id => Dictionary.replace "id" (.string id) attrs
  | _, _ => attrs

def substituteIds (ids : Dictionary String) (tree : Value) : Value :=
  mapObjects (changeAttrs ["media", "mediaInline"] (substituteId ids)) tree

/-! ## Widths -/

/-- The height that keeps the aspect ratio at a new width. -/
def scaledHeight (width : Nat) (oldHeight oldWidth : Number) : Nat :=
  (((Binary64.ofNat width).mul oldHeight.toBinary64).div oldWidth.toBinary64).round64

/-- Attributes wider than the limit get its width, and a height in proportion if they have one. -/
def clampWidth (limit : Nat) (attrs : Fields) : Fields :=
  match attrs.number? "width" with
  | none => attrs
  | some width =>
    if width.toBinary64.le (.ofNat limit) then attrs
    else
      let narrowed := Dictionary.replace "width" (.number (.integer limit)) attrs
      match attrs.number? "height" with
      | none => narrowed
      | some height =>
        Dictionary.replace "height" (.number (.integer (scaledHeight limit height width))) narrowed

/-- Scales down media wider than a limit; no limit and the limit 0 leave everything alone. -/
def clampWidths (limit : Option Nat) (tree : Value) : Value :=
  match limit with
  | none | some 0 => tree
  | some limit =>
    mapObjects (changeAttrs ["media", "mediaInline", "mediaGroup"] (clampWidth limit)) tree

end WikiPress.Upload
