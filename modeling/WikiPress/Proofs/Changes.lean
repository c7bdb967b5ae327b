import WikiPress.Proofs.Substitution
import WikiPress.Proofs.Widths
import WikiPress.Proofs.Writing

/-!
# What the passes change

Both passes over raw trees put scalars in the place of scalars and touch nothing else, and neither looks at what the
other one writes. So it does not matter which of them is made first.
-/

namespace WikiPress.Upload

open Json (Value Fields Number PathStep)

/-! ## Ids -/

def writtenId (ids : Dictionary String) (attrs : Fields) (key : String) : Option Value :=
  if key = "id" then (idFor? ids attrs).map .string else none

/-- The pointer leads to the id of a medium of the attachments that is a known name, and the value is the id for it. -/
def SubstitutedAt (ids : Dictionary String) (tree : Value) (pointer : List PathStep) (value : Value) : Prop :=
  ∃ medium fields attrs name id,
    pointer = medium ++ [.key "attrs", .key "id"] ∧ tree.at? medium = some (.object fields) ∧
      (∃ type ∈ ["media", "mediaInline"], fields.lookup "type" = some (.string type)) ∧
      fields.lookup "attrs" = some (.object attrs) ∧
      attrs.lookup "collection" = some (.string "attachments") ∧ attrs.lookup "id" = some (.string name) ∧
      List.lookup name ids = some id ∧ value = .string id

theorem idFor?_eq_some {ids : Dictionary String} {attrs : Fields} {id : String} : idFor? ids attrs = some id ↔
    attrs.lookup "collection" = some (.string "attachments") ∧
      ∃ name, attrs.lookup "id" = some (.string name) ∧ List.lookup name ids = some id := by
  unfold idFor?
  rw [← Fields.text?_eq_some]
  by_cases hc : Fields.text? "collection" attrs = some "attachments"
  · simp [hc, Option.bind_eq_some_iff, Fields.text?_eq_some]
  · simp [hc]

theorem writtenId_eq_some {ids : Dictionary String} {attrs : Fields} {key : String} {value : Value} :
    writtenId ids attrs key = some value ↔ key = "id" ∧ ∃ id, idFor? ids attrs = some id ∧ value = .string id := by
  unfold writtenId
  by_cases hkey : key = "id"
  · simp [hkey, Option.map_eq_some_iff, @eq_comm _ value]
  · simp [hkey]

theorem substituteId_writes (ids : Dictionary String) : Writes (substituteId ids) (writtenId ids) where
  keys attrs := by
    rw [substituteId_eq]
    cases idFor? ids attrs with
    | none => rfl
    | some id => exact Dictionary.keys_replace ..
  lookup attrs key := by
    by_cases hkey : key = "id"
    · subst hkey
      rw [substituteId_eq, writtenId, if_pos rfl]
      cases hfor : idFor? ids attrs with
      | none => rfl
      | some id =>
        obtain ⟨-, name, hname, -⟩ := idFor?_eq_some.1 hfor
        rw [Option.map_some, Option.some_or, Dictionary.lookup_replace, if_pos rfl, hname]
        rfl
    · rw [lookup_substituteId ids attrs hkey, writtenId, if_neg hkey, Option.none_or]
  attrs attrs := if_neg (by decide)
  scalar attrs key value hwrite := by
    obtain ⟨rfl, id, hfor, rfl⟩ := writtenId_eq_some.1 hwrite
    obtain ⟨-, name, hname, -⟩ := idFor?_eq_some.1 hfor
    exact ⟨rfl, .string name, hname, rfl⟩

theorem gets_writtenId_iff {ids : Dictionary String} {tree value : Value} {pointer : List PathStep} :
    Gets ["media", "mediaInline"] (writtenId ids) tree pointer value ↔ SubstitutedAt ids tree pointer value := by
  constructor
  · rintro ⟨medium, fields, attrs, key, hpointer, htree, hattrs, hwrite⟩
    obtain ⟨rfl, id, hfor, rfl⟩ := writtenId_eq_some.1 hwrite
    obtain ⟨hcollection, name, hname, hid⟩ := idFor?_eq_some.1 hfor
    obtain ⟨htype, hfields⟩ := attrsOf?_eq_some.1 hattrs
    exact ⟨medium, fields, attrs, name, id, hpointer, htree, htype, hfields, hcollection, hname, hid, rfl⟩
  · rintro ⟨medium, fields, attrs, name, id, hpointer, htree, htype, hfields, hcollection, hname, hid, rfl⟩
    refine ⟨medium, fields, attrs, "id", hpointer, htree, attrsOf?_eq_some.2 ⟨htype, hfields⟩, ?_⟩
    exact writtenId_eq_some.2 ⟨rfl, id, idFor?_eq_some.2 ⟨hcollection, name, hname, hid⟩, rfl⟩

/-! ## Sizes -/

def writtenSize (limit : Nat) (attrs : Fields) (key : String) : Option Value :=
  (excess? limit attrs).bind fun width =>
    if key = "width" then some (.number (.integer limit))
    else if key = "height" then
      (Fields.number? "height" attrs).map fun height => .number (.integer (scaledHeight limit height width))
    else none

/-- The pointer leads to the width or to the height of a medium wider than the limit, and the value is the limit or
the height in proportion. -/
def NarrowedAt (limit : Option Nat) (tree : Value) (pointer : List PathStep) (value : Value) : Prop :=
  ∃ most medium fields attrs width, limit = some most ∧ 0 < most ∧ tree.at? medium = some (.object fields) ∧
    (∃ type ∈ ["media", "mediaInline", "mediaGroup"], fields.lookup "type" = some (.string type)) ∧
    fields.lookup "attrs" = some (.object attrs) ∧ attrs.lookup "width" = some (.number width) ∧
    width.toBinary64.le (.ofNat most) = false ∧
      (pointer = medium ++ [.key "attrs", .key "width"] ∧ value = .number (.integer most) ∨
        ∃ height, attrs.lookup "height" = some (.number height) ∧ pointer = medium ++ [.key "attrs", .key "height"] ∧
          value = .number (.integer (scaledHeight most height width)))

theorem writtenSize_eq_some {limit : Nat} {attrs : Fields} {key : String} {value : Value} :
    writtenSize limit attrs key = some value ↔ ∃ width, excess? limit attrs = some width ∧
      (key = "width" ∧ value = .number (.integer limit) ∨
        ∃ height, attrs.lookup "height" = some (.number height) ∧ key = "height" ∧
          value = .number (.integer (scaledHeight limit height width))) := by
  unfold writtenSize
  rw [Option.bind_eq_some_iff]
  refine exists_congr fun width => and_congr_right fun _ => ?_
  by_cases hw : key = "width"
  · simp [hw, @eq_comm _ value]
  · by_cases hh : key = "height"
    · simp [hh, Option.map_eq_some_iff, Fields.number?_eq_some, @eq_comm _ value]
    · simp [hw, hh]

theorem lookup_height_narrowed (limit : Nat) (width : Number) (attrs : Fields) :
    (narrowed limit width attrs).lookup "height" =
      ((Fields.number? "height" attrs).map fun height => Value.number (.integer (scaledHeight limit height width))).or
        (attrs.lookup "height") := by
  unfold narrowed
  cases hheight : Fields.number? "height" attrs with
  | none => rw [Dictionary.lookup_replace, if_neg (by decide), Option.map_none, Option.none_or]
  | some height =>
    rw [Dictionary.lookup_replace, if_pos rfl, Dictionary.lookup_replace, if_neg (by decide),
      Fields.number?_eq_some.1 hheight]
    rfl

theorem clampWidth_writes (limit : Nat) : Writes (clampWidth limit) (writtenSize limit) where
  keys attrs := by
    rw [clampWidth_eq]
    cases excess? limit attrs with
    | none => rfl
    | some width =>
      unfold narrowed
      cases Fields.number? "height" attrs with
      | none => exact Dictionary.keys_replace ..
      | some height => exact (Dictionary.keys_replace ..).trans (Dictionary.keys_replace ..)
  lookup attrs key := by
    rw [clampWidth_eq, writtenSize]
    cases hexcess : excess? limit attrs with
    | none => rfl
    | some width =>
      rw [Option.bind_some]
      by_cases hw : key = "width"
      · subst hw
        rw [if_pos rfl, Option.some_or]
        exact Fields.number?_eq_some.1 (number?_narrowed hexcess)
      · rw [if_neg hw]
        by_cases hh : key = "height"
        · subst hh
          rw [if_pos rfl]
          exact lookup_height_narrowed limit width attrs
        · rw [if_neg hh, Option.none_or]
          exact lookup_narrowed limit attrs width hw hh
  attrs attrs := by
    cases h : writtenSize limit attrs "attrs" with
    | none => rfl
    | some value =>
      obtain ⟨_, _, ⟨hkey, _⟩ | ⟨_, _, hkey, _⟩⟩ := writtenSize_eq_some.1 h
      · exact absurd hkey (by decide)
      · exact absurd hkey (by decide)
  scalar attrs key value hwrite := by
    obtain ⟨width, hexcess, ⟨rfl, rfl⟩ | ⟨height, hheight, rfl, rfl⟩⟩ := writtenSize_eq_some.1 hwrite
    · exact ⟨rfl, .number width, (excess?_eq_some.1 hexcess).1, rfl⟩
    · exact ⟨rfl, .number height, hheight, rfl⟩

theorem gets_writtenSize_iff {most : Nat} (hpos : 0 < most) {tree value : Value} {pointer : List PathStep} :
    Gets ["media", "mediaInline", "mediaGroup"] (writtenSize most) tree pointer value ↔
      NarrowedAt (some most) tree pointer value := by
  constructor
  · rintro ⟨medium, fields, attrs, key, rfl, htree, hattrs, hwrite⟩
    obtain ⟨width, hexcess, hsize⟩ := writtenSize_eq_some.1 hwrite
    obtain ⟨hwidth, hwide⟩ := excess?_eq_some.1 hexcess
    obtain ⟨htype, hfields⟩ := attrsOf?_eq_some.1 hattrs
    refine ⟨most, medium, fields, attrs, width, rfl, hpos, htree, htype, hfields, hwidth, hwide, ?_⟩
    obtain ⟨rfl, rfl⟩ | ⟨height, hheight, rfl, rfl⟩ := hsize
    · exact .inl ⟨rfl, rfl⟩
    · exact .inr ⟨height, hheight, rfl, rfl⟩
  · rintro ⟨_, medium, fields, attrs, width, ⟨rfl⟩, -, htree, htype, hfields, hwidth, hwide, hsize⟩
    have hattrs : attrsOf? ["media", "mediaInline", "mediaGroup"] fields = some attrs :=
      attrsOf?_eq_some.2 ⟨htype, hfields⟩
    have hexcess : excess? most attrs = some width := excess?_eq_some.2 ⟨hwidth, hwide⟩
    obtain ⟨rfl, rfl⟩ | ⟨height, hheight, rfl, rfl⟩ := hsize
    · exact ⟨medium, fields, attrs, _, rfl, htree, hattrs, writtenSize_eq_some.2 ⟨width, hexcess, .inl ⟨rfl, rfl⟩⟩⟩
    · exact ⟨medium, fields, attrs, _, rfl, htree, hattrs,
        writtenSize_eq_some.2 ⟨width, hexcess, .inr ⟨height, hheight, rfl, rfl⟩⟩⟩

theorem clampWidths_changedAt (limit : Option Nat) (tree : Value) (pointer : List PathStep) :
    ChangedAt (NarrowedAt limit tree pointer) (tree.at? pointer) ((clampWidths limit tree).at? pointer) := by
  have hnone : (∀ value, ¬NarrowedAt limit tree pointer value) →
      ChangedAt (NarrowedAt limit tree pointer) (tree.at? pointer) (tree.at? pointer) := fun h =>
    ⟨rfl, fun value hvalue => absurd hvalue (h value), fun value hvalue _ _ => hvalue⟩
  cases limit with
  | none => exact hnone fun value ⟨_, _, _, _, _, hlimit, _⟩ => nomatch hlimit
  | some most =>
    obtain rfl | hpos := Nat.eq_zero_or_pos most
    · exact hnone fun value ⟨_, _, _, _, _, hlimit, hpos, _⟩ => absurd hpos (Option.some.inj hlimit ▸ Nat.lt_irrefl 0)
    · rw [clampWidths_pos hpos]
      exact ((clampWidth_local most).changedAt (clampWidth_writes most) pointer tree).congr fun value =>
        gets_writtenSize_iff hpos

/-- **What the passes change.** At every pointer stands a value of the same shape as before, the new id or size if the
tree before the pass asks for one there, and otherwise the same scalar as before. -/
theorem passes_change (ids : Dictionary String) (limit : Option Nat) (tree : Value) (pointer : List PathStep) :
    ChangedAt (SubstitutedAt ids tree pointer) (tree.at? pointer) ((substituteIds ids tree).at? pointer) ∧
      ChangedAt (NarrowedAt limit tree pointer) (tree.at? pointer) ((clampWidths limit tree).at? pointer) :=
  ⟨((substituteId_local ids).changedAt (substituteId_writes ids) pointer tree).congr fun _ => gets_writtenId_iff,
    clampWidths_changedAt limit tree pointer⟩

/-- A medium of the attachments that is 1600 wide and 900 high, in a figure. -/
def wideAttachment : Value :=
  .object [("content", .array [.object [("attrs", .object [("collection", .string "attachments"),
    ("height", .number (.integer 900)), ("id", .string "a.png"), ("width", .number (.integer 1600))]),
    ("type", .string "media")]]), ("type", .string "mediaSingle")]

theorem passes_change_wideAttachment :
    let medium : List PathStep := [.key "content", .index 0]
    (substituteIds [("a.png", "42")] wideAttachment).at? (medium ++ [.key "attrs", .key "id"]) = some (.string "42") ∧
      (clampWidths (some 800) wideAttachment).at? (medium ++ [.key "attrs", .key "width"]) =
        some (.number (.integer 800)) ∧
      (clampWidths (some 800) wideAttachment).at? (medium ++ [.key "attrs", .key "height"]) =
        some (.number (.integer 450)) := by
  intro medium
  have hchange := passes_change [("a.png", "42")] (some 800) wideAttachment
  have hwide : (Number.integer 1600).toBinary64.le (.ofNat 800) = false := by decide +kernel
  have hheight : (450 : Int) = scaledHeight 800 (.integer 900) (.integer 1600) := by decide +kernel
  refine ⟨(hchange _).1.written _ ?_, (hchange _).2.written _ ?_, (hchange _).2.written _ ?_⟩
  · exact ⟨medium, _, _, "a.png", "42", rfl, rfl, ⟨"media", by decide, rfl⟩, rfl, rfl, rfl, rfl, rfl⟩
  · exact ⟨800, medium, _, _, .integer 1600, rfl, by decide, rfl, ⟨"media", by decide, rfl⟩, rfl, rfl, hwide,
      .inl ⟨rfl, rfl⟩⟩
  · exact ⟨800, medium, _, _, .integer 1600, rfl, by decide, rfl, ⟨"media", by decide, rfl⟩, rfl, rfl, hwide,
      .inr ⟨.integer 900, rfl, rfl, by rw [hheight]⟩⟩

/-! ## One pass after the other -/

theorem clampWidth_substituteId (limit : Nat) (ids : Dictionary String) (attrs : Fields) :
    clampWidth limit (substituteId ids attrs) = substituteId ids (clampWidth limit attrs) := by
  have hfor : idFor? ids (clampWidth limit attrs) = idFor? ids attrs := by
    have hlookup : ∀ key, key ≠ "width" → key ≠ "height" →
        Fields.text? key (clampWidth limit attrs) = Fields.text? key attrs := by
      intro key hw hh
      rw [Fields.text?, lookup_clampWidth limit attrs hw hh, Fields.text?]
    exact idFor?_congr ids attrs (hlookup _ (by decide) (by decide)) (hlookup _ (by decide) (by decide))
  rw [substituteId_eq, substituteId_eq, hfor]
  cases idFor? ids attrs with
  | none => rfl
  | some id => exact clampWidth_replace (by decide) (by decide) limit (.string id) attrs

theorem attrsOf?_replaced (types : List String) {fields attrs : Fields}
    (h : fields.lookup "attrs" = some (.object attrs)) (attrs' : Fields) :
    attrsOf? types (Dictionary.replace "attrs" (.object attrs') fields) =
      (attrsOf? types fields).map fun _ => attrs' := by
  cases htypes : attrsOf? types fields with
  | some found => exact attrsOf?_replace htypes attrs'
  | none =>
    have hother : hasType types fields = false := by
      cases htype : hasType types fields with
      | false => rfl
      | true =>
        rw [attrsOf?_eq_some.2 ⟨hasType_iff.1 htype, h⟩] at htypes
        cases htypes
    rw [attrsOf?, hasType, text?_replace_of_ne (by decide), ← hasType, hother]
    rfl

/-- Changes of the same attributes may be made in any order, whatever types they are for. -/
theorem changeAttrs_comm {types types' : List String} {change change' : Fields → Fields}
    (hcomm : ∀ attrs, change (change' attrs) = change' (change attrs)) (fields : Fields) :
    changeAttrs types change (changeAttrs types' change' fields) =
      changeAttrs types' change' (changeAttrs types change fields) := by
  cases h : attrsOf? types fields with
  | none =>
    cases h' : attrsOf? types' fields with
    | none => simp only [changeAttrs_eq, h, h']
    | some attrs =>
      have hfields := (attrsOf?_eq_some.1 h').2
      simp only [changeAttrs_eq, h, h', attrsOf?_replaced types hfields, Option.map_none]
  | some attrs =>
    have hfields := (attrsOf?_eq_some.1 h).2
    cases h' : attrsOf? types' fields with
    | none => simp only [changeAttrs_eq, h, h', attrsOf?_replaced types' hfields, Option.map_none]
    | some attrs' =>
      have hsame : attrs' = attrs := by
        rw [(attrsOf?_eq_some.1 h').2] at hfields
        simpa using hfields
      subst hsame
      simp only [changeAttrs_eq, h, h', attrsOf?_replaced _ hfields, Option.map_some, Dictionary.replace_replace, hcomm]

/-- **One pass after the other.** The passes may be made in any order. -/
theorem clampWidths_substituteIds (ids : Dictionary String) (limit : Option Nat) (tree : Value) :
    clampWidths limit (substituteIds ids tree) = substituteIds ids (clampWidths limit tree) := by
  cases limit with
  | none => rfl
  | some limit =>
    obtain rfl | hpos := Nat.eq_zero_or_pos limit
    · rfl
    · rw [clampWidths_pos hpos, clampWidths_pos hpos, substituteIds, substituteIds,
        (substituteId_local ids).mapObjects_changeAttrs, (clampWidth_local limit).mapObjects_changeAttrs]
      congr 1
      funext fields
      exact changeAttrs_comm (clampWidth_substituteId limit ids) fields

end WikiPress.Upload
