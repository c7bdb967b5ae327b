import WikiPress.Proofs.Pointer
import WikiPress.Proofs.Rounding

/-!
# Narrowed media

The pass that narrows wide media leaves no medium wider than the limit, in objects among the attributes of others as
well, so that it changes nothing when it is made again.
-/

namespace WikiPress.Upload

open Json (Value Fields Number PathStep)

theorem number?_replace_of_ne {key key' : String} (h : key ≠ key') (value : Value) (fields : Fields) :
    Fields.number? key (Dictionary.replace key' value fields) = fields.number? key := by
  rw [Fields.number?, Dictionary.lookup_replace, if_neg h, Fields.number?]

theorem number?_mapFields (change : Fields → Fields) (key : String) (fields : Fields) :
    Fields.number? key (mapFields change fields) = fields.number? key := by
  rw [Fields.number?, Fields.number?, lookup_mapFields]
  cases fields.lookup key with
  | none => rfl
  | some value => cases value <;> rfl

/-! ## The change -/

/-- The width of attributes that are wider than a limit. -/
def excess? (limit : Nat) (attrs : Fields) : Option Number :=
  (Fields.number? "width" attrs).bind fun width => if width.toBinary64.le (.ofNat limit) then none else some width

/-- The attributes at a new width, with a height in proportion to an old one. -/
def narrowed (limit : Nat) (width : Number) (attrs : Fields) : Fields :=
  match Fields.number? "height" attrs with
  | none => Dictionary.replace "width" (.number (.integer limit)) attrs
  | some height =>
    Dictionary.replace "height" (.number (.integer (scaledHeight limit height width)))
      (Dictionary.replace "width" (.number (.integer limit)) attrs)

section
variable (limit : Nat) (attrs : Fields)

theorem clampWidth_eq : clampWidth limit attrs =
    match excess? limit attrs with
    | some width => narrowed limit width attrs
    | none => attrs := by
  unfold clampWidth excess? narrowed
  cases Fields.number? "width" attrs with
  | none => rfl
  | some width =>
    by_cases hfits : width.toBinary64.le (.ofNat limit) = true
    · simp [hfits]
    · cases Fields.number? "height" attrs <;> simp [hfits]

theorem excess?_congr {attrs' : Fields} (hw : Fields.number? "width" attrs' = Fields.number? "width" attrs) :
    excess? limit attrs' = excess? limit attrs := by
  rw [excess?, excess?, hw]

theorem lookup_narrowed (width : Number) {key : String} (hw : key ≠ "width") (hh : key ≠ "height") :
    (narrowed limit width attrs).lookup key = attrs.lookup key := by
  unfold narrowed
  cases Fields.number? "height" attrs with
  | none => rw [Dictionary.lookup_replace, if_neg hw]
  | some height => rw [Dictionary.lookup_replace, if_neg hh, Dictionary.lookup_replace, if_neg hw]

theorem lookup_clampWidth {key : String} (hw : key ≠ "width") (hh : key ≠ "height") :
    (clampWidth limit attrs).lookup key = attrs.lookup key := by
  rw [clampWidth_eq]
  cases excess? limit attrs with
  | none => rfl
  | some width => exact lookup_narrowed limit attrs width hw hh

end

section
variable {key : String} (hw : key ≠ "width") (hh : key ≠ "height")
include hw hh

theorem narrowed_replace {limit : Nat} (width : Number) (value : Value) (attrs : Fields) :
    narrowed limit width (Dictionary.replace key value attrs) =
      Dictionary.replace key value (narrowed limit width attrs) := by
  unfold narrowed
  rw [number?_replace_of_ne hh.symm]
  cases Fields.number? "height" attrs with
  | none => exact Dictionary.replace_comm hw.symm ..
  | some height =>
    dsimp only
    rw [Dictionary.replace_comm hw.symm _ value attrs, Dictionary.replace_comm hh.symm]

theorem clampWidth_replace (limit : Nat) (value : Value) (attrs : Fields) :
    clampWidth limit (Dictionary.replace key value attrs) = Dictionary.replace key value (clampWidth limit attrs) := by
  have hexcess : excess? limit (Dictionary.replace key value attrs) = excess? limit attrs :=
    excess?_congr limit attrs (number?_replace_of_ne hw.symm value attrs)
  rw [clampWidth_eq, clampWidth_eq, hexcess]
  cases excess? limit attrs with
  | none => rfl
  | some width => exact narrowed_replace hw hh width value attrs

end

theorem narrowed_mapFields {limit : Nat} (width : Number) (inner : Fields → Fields) (attrs : Fields) :
    narrowed limit width (mapFields inner attrs) = mapFields inner (narrowed limit width attrs) := by
  unfold narrowed
  rw [number?_mapFields]
  cases Fields.number? "height" attrs with
  | none => exact (mapFields_replace inner "width" (.number (.integer limit)) attrs).symm
  | some height =>
    dsimp only
    rw [mapFields_replace, mapFields_replace]
    rfl

theorem clampWidth_local (limit : Nat) : Local (clampWidth limit) where
  type attrs := by rw [Fields.text?, lookup_clampWidth limit attrs (by decide) (by decide), Fields.text?]
  attrs attrs := lookup_clampWidth limit attrs (by decide) (by decide)
  replace value attrs := clampWidth_replace (by decide) (by decide) limit value attrs
  map inner attrs := by
    have hexcess : excess? limit (mapFields inner attrs) = excess? limit attrs :=
      excess?_congr limit attrs (number?_mapFields inner "width" attrs)
    rw [clampWidth_eq, clampWidth_eq, hexcess]
    cases excess? limit attrs with
    | none => rfl
    | some width => exact narrowed_mapFields width inner attrs

/-! ## The limit -/

section
variable {limit : Nat} {attrs : Fields}

theorem excess?_eq_some {width : Number} : excess? limit attrs = some width ↔
    attrs.lookup "width" = some (.number width) ∧ width.toBinary64.le (.ofNat limit) = false := by
  unfold excess? Fields.number?
  cases attrs.lookup "width" with
  | none => simp
  | some value =>
    cases value with
    | number n =>
      simp only [Option.bind_some, Option.some.injEq, Value.number.injEq]
      by_cases hfits : n.toBinary64.le (.ofNat limit) = true
      · rw [if_pos hfits]
        constructor
        · exact fun h => nomatch h
        · rintro ⟨rfl, hwide⟩
          rw [hfits] at hwide
          cases hwide
      · rw [if_neg hfits, Option.some.injEq]
        constructor
        · rintro rfl
          exact ⟨rfl, Bool.not_eq_true _ ▸ hfits⟩
        · exact And.left
    | _ => simp

theorem number?_narrowed {width : Number} (h : excess? limit attrs = some width) :
    Fields.number? "width" (narrowed limit width attrs) = some (.integer limit) := by
  have hwidth : Fields.number? "width" (Dictionary.replace "width" (.number (.integer limit)) attrs) =
      some (.integer limit) := by
    rw [Fields.number?, Dictionary.lookup_replace, if_pos rfl, (excess?_eq_some.1 h).1]
    rfl
  unfold narrowed
  cases Fields.number? "height" attrs with
  | none => exact hwidth
  | some height => exact (number?_replace_of_ne (by decide) ..).trans hwidth

theorem excess?_limit (h : Fields.number? "width" attrs = some (.integer limit)) : excess? limit attrs = none := by
  have hle : (Number.integer limit).toBinary64.le (.ofNat limit) = true := by
    rw [Number.toBinary64, Binary64.ofInt_natCast]
    exact Binary64.le_refl (Binary64.ofRatio_ne_nan false limit 1)
  rw [excess?, h, Option.bind_some, if_pos hle]

theorem excess?_clampWidth (limit : Nat) (attrs : Fields) : excess? limit (clampWidth limit attrs) = none := by
  rw [clampWidth_eq]
  cases h : excess? limit attrs with
  | none => exact h
  | some width => exact excess?_limit (number?_narrowed h)

theorem clampWidth_clampWidth (limit : Nat) (attrs : Fields) :
    clampWidth limit (clampWidth limit attrs) = clampWidth limit attrs := by
  rw [clampWidth_eq limit (clampWidth limit attrs), excess?_clampWidth]

/-- Attributes that the change leaves alone have a width within the limit. -/
theorem le_of_clampWidth_eq (h : clampWidth limit attrs = attrs) {width : Number}
    (hwidth : attrs.lookup "width" = some (.number width)) : width.toBinary64.le (.ofNat limit) = true := by
  have hnone : excess? limit attrs = none := by rw [← h, excess?_clampWidth]
  cases hle : width.toBinary64.le (.ofNat limit) with
  | true => rfl
  | false =>
    rw [excess?_eq_some.2 ⟨hwidth, hle⟩] at hnone
    cases hnone

end

theorem clampWidths_pos {limit : Nat} (h : 0 < limit) (tree : Value) : clampWidths (some limit) tree =
    mapObjects (changeAttrs ["media", "mediaInline", "mediaGroup"] (clampWidth limit)) tree := by
  cases limit with
  | zero => exact absurd h (Nat.lt_irrefl 0)
  | succ limit => rfl

theorem clampWidths_clampWidths (limit : Option Nat) (tree : Value) :
    clampWidths limit (clampWidths limit tree) = clampWidths limit tree := by
  cases limit with
  | none => rfl
  | some limit =>
    obtain rfl | hpos := Nat.eq_zero_or_pos limit
    · rfl
    · rw [clampWidths_pos hpos, clampWidths_pos hpos]
      exact (clampWidth_local limit).mapObjects_idempotent (clampWidth_clampWidth limit) tree

/-- **No medium is wider than the limit** after the pass, and the pass changes nothing when it is made again. The
widths are in order as doubles, and so the whole ones as numbers if the limit is below `2 ^ 53`. -/
theorem clampWidths_settles (limit : Option Nat) (tree : Value) :
    clampWidths limit (clampWidths limit tree) = clampWidths limit tree ∧
      ∀ (most : Nat) (pointer : List PathStep) (fields attrs : Fields) (type : String), limit = some most → 0 < most →
        (clampWidths limit tree).at? pointer = some (.object fields) →
        fields.lookup "type" = some (.string type) → type ∈ ["media", "mediaInline", "mediaGroup"] →
        fields.lookup "attrs" = some (.object attrs) →
        (∀ width, attrs.lookup "width" = some (.number width) → width.toBinary64.le (.ofNat most) = true) ∧
          (most < Nat.pow 2 53 → ∀ width, attrs.lookup "width" = some (.number (.integer width)) → width ≤ most) := by
  refine ⟨clampWidths_clampWidths limit tree, ?_⟩
  rintro most pointer fields attrs type rfl hpos hat htype hmem hattrs
  rw [clampWidths_pos hpos] at hat
  have hmedium : attrsOf? ["media", "mediaInline", "mediaGroup"] fields = some attrs :=
    attrsOf?_eq_some.2 ⟨⟨type, hmem, htype⟩, hattrs⟩
  have hsettled : clampWidth most attrs = attrs :=
    (clampWidth_local most).attrs_fixed (clampWidth_clampWidth most) hat hmedium
  exact ⟨fun width hwidth => le_of_clampWidth_eq hsettled hwidth,
    fun hmost width hwidth => Binary64.le_of_ofInt_le hmost (le_of_clampWidth_eq hsettled hwidth)⟩

/-- A group of media of width 640 among the attributes of a medium of width 5000. -/
def groupInMedium : Value :=
  .object [("attrs", .object [("group", .object [("attrs", .object [("width", .number (.integer 640))]),
    ("type", .string "mediaGroup")]), ("width", .number (.integer 5000))]), ("type", .string "media")]

theorem clampWidths_settles_group :
    clampWidths (some 800) groupInMedium ≠ groupInMedium ∧
      (clampWidths (some 800) groupInMedium).at? [.key "attrs", .key "group"] =
        some (.object [("attrs", .object [("width", .number (.integer 640))]), ("type", .string "mediaGroup")]) ∧
      800 < Nat.pow 2 53 ∧ (640 : Int) ≤ 800 := by
  have hat : (clampWidths (some 800) groupInMedium).at? [.key "attrs", .key "group"] =
      some (.object [("attrs", .object [("width", .number (.integer 640))]), ("type", .string "mediaGroup")]) := by
    decide +kernel
  refine ⟨by decide +kernel, hat, by decide, ?_⟩
  have hgroup := (clampWidths_settles (some 800) groupInMedium).2 800 [.key "attrs", .key "group"] _ _ "mediaGroup" rfl
    (by decide) hat rfl (by decide) rfl
  exact hgroup.2 (by decide) 640 rfl

end WikiPress.Upload
