import WikiPress.Proofs.Changes
import WikiPress.Proofs.RoundTrip

/-!
# Rewritten trees

A pass nests nothing deeper and leaves the keys in order. So it may as well change each object before what is in it,
from the root down, and a tree that was read and rewritten can be printed and read again.
-/

namespace WikiPress

namespace Dictionary

variable {α : Type} {key : String} {value : α} {entries : Dictionary α}

theorem mem_replace {entry : String × α} (h : entry ∈ replace key value entries) :
    entry ∈ entries ∨ entry = (key, value) := by
  induction entries with
  | nil => cases h
  | cons first rest ih =>
    obtain ⟨k, v⟩ := first
    unfold replace at h
    split at h
    · rename_i hk
      subst hk
      obtain h | h := List.mem_cons.1 h
      · exact .inr h
      · exact .inl (List.mem_cons_of_mem _ h)
    · obtain h | h := List.mem_cons.1 h
      · exact .inl (h ▸ List.mem_cons_self ..)
      · exact (ih h).imp_left (List.mem_cons_of_mem _)

theorem mem_of_lookup (h : List.lookup key entries = some value) : (key, value) ∈ entries := by
  induction entries with
  | nil => cases h
  | cons first rest ih =>
    obtain ⟨k, v⟩ := first
    rw [lookup_cons] at h
    split at h
    · rename_i hk
      obtain rfl := Option.some.inj h
      subst hk
      exact List.mem_cons_self ..
    · exact List.mem_cons_of_mem _ (ih h)

theorem replace_of_lookup (h : List.lookup key entries = some value) : replace key value entries = entries := by
  induction entries with
  | nil => cases h
  | cons first rest ih =>
    obtain ⟨k, v⟩ := first
    rw [lookup_cons] at h
    unfold replace
    split at h
    · rename_i hk
      obtain rfl := Option.some.inj h
      rw [if_pos hk.symm]
    · rename_i hk
      rw [if_neg (Ne.symm hk), ih h]

end Dictionary

namespace Upload

open Json (Value Fields Number)

/-! ## Scalars for scalars -/

/-- The keys stay as they are, and each field as it is unless it gets a scalar. -/
structure PutsScalars (change : Fields → Fields) : Prop where
  keys : ∀ attrs, (change attrs).map Prod.fst = attrs.map Prod.fst
  field : ∀ attrs, ∀ field ∈ change attrs, field ∈ attrs ∨ field.2.isScalar = true

theorem replace_scalar {key : String} {value : Value} (hvalue : value.isScalar = true) {attrs : Fields} :
    ∀ field ∈ Dictionary.replace key value attrs, field ∈ attrs ∨ field.2.isScalar = true := by
  intro field hfield
  obtain h | rfl := Dictionary.mem_replace hfield
  · exact .inl h
  · exact .inr hvalue

theorem substituteId_putsScalars (ids : Dictionary String) : PutsScalars (substituteId ids) where
  keys := (substituteId_writes ids).keys
  field attrs := by
    rw [substituteId_eq]
    cases idFor? ids attrs with
    | none => exact fun field hfield => .inl hfield
    | some id => exact replace_scalar rfl

theorem clampWidth_putsScalars (limit : Nat) : PutsScalars (clampWidth limit) where
  keys := (clampWidth_writes limit).keys
  field attrs := by
    rw [clampWidth_eq]
    cases excess? limit attrs with
    | none => exact fun field hfield => .inl hfield
    | some width =>
      unfold narrowed
      cases Fields.number? "height" attrs with
      | none => exact replace_scalar rfl
      | some height =>
        intro field hfield
        obtain h | h := replace_scalar rfl field hfield
        · exact replace_scalar rfl field h
        · exact .inr h

theorem mem_changeAttrs {types : List String} {change : Fields → Fields} {fields : Fields} {field : String × Value}
    (hfield : field ∈ changeAttrs types change fields) : field ∈ fields ∨
      ∃ attrs, ("attrs", Value.object attrs) ∈ fields ∧ field = ("attrs", .object (change attrs)) := by
  rw [changeAttrs_eq] at hfield
  cases hattrs : attrsOf? types fields with
  | none =>
    rw [hattrs] at hfield
    exact .inl hfield
  | some attrs =>
    rw [hattrs] at hfield
    obtain h | h := Dictionary.mem_replace hfield
    · exact .inl h
    · exact .inr ⟨attrs, Dictionary.mem_of_lookup (attrsOf?_eq_some.1 hattrs).2, h⟩

/-! ## Order and depth -/

theorem depth_of_isScalar {value : Value} (h : value.isScalar = true) : value.depth = 0 := by
  cases value with
  | array => cases h
  | object => cases h
  | _ => rfl

theorem isSorted_of_isScalar {value : Value} (h : value.isScalar = true) : value.isSorted = true := by
  cases value with
  | array => cases h
  | object => cases h
  | _ => rfl

theorem isSorted_object {fields : Fields} : (Value.object fields).isSorted = true ↔
    Dictionary.IsSorted fields ∧ ∀ field ∈ fields, field.2.isSorted = true := by
  rw [Value.isSorted, Bool.and_eq_true_iff, decide_eq_true_eq, Value.fieldsSorted_iff]

section
variable {types : List String} {change : Fields → Fields} (h : PutsScalars change)
include h

theorem PutsScalars.depth_le (attrs : Fields) : (Value.object (change attrs)).depth ≤ (Value.object attrs).depth := by
  apply Nat.succ_le_succ
  rw [Value.fieldsDepth_le_iff]
  intro field hfield
  obtain hold | hscalar := h.field attrs field hfield
  · exact (Value.fieldsDepth_le_iff attrs _).1 (Nat.le_refl _) field hold
  · rw [depth_of_isScalar hscalar]
    exact Nat.zero_le _

theorem PutsScalars.changeAttrs_depth_le (fields : Fields) :
    Value.fieldsDepth (changeAttrs types change fields) ≤ Value.fieldsDepth fields := by
  rw [Value.fieldsDepth_le_iff]
  intro field hfield
  have hold := (Value.fieldsDepth_le_iff fields _).1 (Nat.le_refl _)
  obtain hfield | ⟨attrs, hattrs, rfl⟩ := mem_changeAttrs hfield
  · exact hold field hfield
  · exact Nat.le_trans (h.depth_le attrs) (hold _ hattrs)

theorem PutsScalars.isSorted {attrs : Fields} (hsorted : (Value.object attrs).isSorted = true) :
    (Value.object (change attrs)).isSorted = true := by
  obtain ⟨hkeys, hfields⟩ := isSorted_object.1 hsorted
  refine isSorted_object.2 ⟨?_, ?_⟩
  · rwa [Dictionary.IsSorted, h.keys]
  · intro field hfield
    obtain hold | hscalar := h.field attrs field hfield
    · exact hfields field hold
    · exact isSorted_of_isScalar hscalar

theorem PutsScalars.changeAttrs_isSorted {fields : Fields} (hsorted : (Value.object fields).isSorted = true) :
    (Value.object (changeAttrs types change fields)).isSorted = true := by
  obtain ⟨hkeys, hfields⟩ := isSorted_object.1 hsorted
  refine isSorted_object.2 ⟨?_, ?_⟩
  · rwa [Dictionary.IsSorted, keys_changeAttrs]
  · intro field hfield
    obtain hfield | ⟨attrs, hattrs, rfl⟩ := mem_changeAttrs hfield
    · exact hfields field hfield
    · exact h.isSorted (hfields _ hattrs)

end

/-- **A rewritten tree** is no deeper than before, and in order if it was. -/
theorem PutsScalars.mapObjects_keeps {change : Fields → Fields} (h : PutsScalars change) (types : List String)
    {levels : Nat} {tree : Value} (hdepth : tree.depth ≤ levels) :
    (mapObjects (changeAttrs types change) tree).depth ≤ levels ∧
      (tree.isSorted = true → (mapObjects (changeAttrs types change) tree).isSorted = true) := by
  induction levels generalizing tree with
  | zero =>
    have hscalar : tree.isScalar = true := by
      cases tree with
      | array => cases hdepth
      | object => cases hdepth
      | _ => rfl
    rw [mapObjects_of_isScalar hscalar]
    exact ⟨hdepth, id⟩
  | succ levels ih =>
    cases tree with
    | array items =>
      have hitems := (Value.itemsDepth_le_iff items levels).1 (Nat.le_of_succ_le_succ hdepth)
      rw [mapObjects, mapItems_eq]
      constructor
      · apply Nat.succ_le_succ
        rw [Value.itemsDepth_le_iff, List.forall_mem_map]
        exact fun item hitem => (ih (hitems item hitem)).1
      · rw [Value.isSorted, Value.isSorted, Value.itemsSorted_iff, Value.itemsSorted_iff, List.forall_mem_map]
        exact fun hsorted item hitem => (ih (hitems item hitem)).2 (hsorted item hitem)
    | object fields =>
      have hfields := (Value.fieldsDepth_le_iff fields levels).1 (Nat.le_of_succ_le_succ hdepth)
      rw [mapObjects]
      constructor
      · apply Nat.succ_le_succ
        apply Nat.le_trans (h.changeAttrs_depth_le _)
        rw [Value.fieldsDepth_le_iff, mapFields_eq, List.forall_mem_map]
        exact fun field hfield => (ih (hfields field hfield)).1
      · intro hsorted
        obtain ⟨hkeys, hsorted⟩ := isSorted_object.1 hsorted
        apply h.changeAttrs_isSorted
        rw [isSorted_object, Dictionary.IsSorted, keys_mapFields, mapFields_eq, List.forall_mem_map]
        exact ⟨hkeys, fun field hfield => (ih (hfields field hfield)).2 (hsorted field hfield)⟩
    | _ => exact ⟨hdepth, id⟩

/-! ## Objects changed in place -/

/-- Each object is changed before what is in it then, down to a level. -/
def visitObjects (change : Fields → Fields) : Nat → Value → Value
  | levels + 1, .array items => .array (items.map (visitObjects change levels))
  | levels + 1, .object fields =>
    .object ((change fields).map fun field => (field.1, visitObjects change levels field.2))
  | _, value => value

/-- **Before or after.** A pass from the root down that goes deep enough is the pass from the leaves up. -/
theorem Local.visitObjects_eq {types : List String} {change : Fields → Fields} (h : Local change)
    (hputs : PutsScalars change) {levels : Nat} {tree : Value} (hdepth : tree.depth ≤ levels) :
    visitObjects (changeAttrs types change) levels tree = mapObjects (changeAttrs types change) tree := by
  induction levels generalizing tree with
  | zero =>
    cases tree with
    | array => cases hdepth
    | object => cases hdepth
    | _ => rfl
  | succ levels ih =>
    cases tree with
    | array items =>
      have hitems := (Value.itemsDepth_le_iff items levels).1 (Nat.le_of_succ_le_succ hdepth)
      rw [visitObjects, mapObjects, mapItems_eq]
      exact congrArg _ (List.map_congr_left fun item hitem => ih (hitems item hitem))
    | object fields =>
      -- The attributes that stand in an object after its change are no deeper than those before.
      have hfields := (Value.fieldsDepth_le_iff (changeAttrs types change fields) levels).1
        (Nat.le_trans (hputs.changeAttrs_depth_le fields) (Nat.le_of_succ_le_succ hdepth))
      rw [visitObjects, mapObjects, ← h.mapFields_changeAttrs, mapFields_eq]
      exact congrArg _ (List.map_congr_left fun field hfield => by rw [ih (hfields field hfield)])
    | _ => rfl

def isEmptyTree : Value → Bool
  | .null | .object [] => true
  | _ => false

theorem mapObjects_of_isEmptyTree {tree : Value} (h : isEmptyTree tree = true) (types : List String)
    (change : Fields → Fields) : mapObjects (changeAttrs types change) tree = tree := by
  unfold isEmptyTree at h
  split at h
  · rfl
  · rfl
  · cases h

theorem changeAttrs_of_fixed {change : Fields → Fields} (h : ∀ attrs, change attrs = attrs) (types : List String)
    (fields : Fields) : changeAttrs types change fields = fields := by
  rw [changeAttrs_eq]
  cases hattrs : attrsOf? types fields with
  | none => rfl
  | some attrs =>
    dsimp only
    rw [h, Dictionary.replace_of_lookup (attrsOf?_eq_some.1 hattrs).2]

mutual

theorem mapObjects_of_fixed {change : Fields → Fields} (h : ∀ fields, change fields = fields) :
    ∀ tree, mapObjects change tree = tree
  | .array items => by rw [mapObjects, mapItems_of_fixed h items]
  | .object fields => by rw [mapObjects, h, mapFields_of_fixed h fields]
  | .null => rfl
  | .boolean _ => rfl
  | .number _ => rfl
  | .string _ => rfl

theorem mapItems_of_fixed {change : Fields → Fields} (h : ∀ fields, change fields = fields) :
    ∀ items, mapItems change items = items
  | [] => rfl
  | item :: items => by rw [mapItems, mapObjects_of_fixed h item, mapItems_of_fixed h items]

theorem mapFields_of_fixed {change : Fields → Fields} (h : ∀ fields, change fields = fields) :
    ∀ fields : List (String × Value), mapFields change fields = fields
  | [] => rfl
  | (_, value) :: fields => by rw [mapFields, mapObjects_of_fixed h value, mapFields_of_fixed h fields]

end

theorem substituteIds_nil (tree : Value) : substituteIds [] tree = tree := by
  apply mapObjects_of_fixed
  apply changeAttrs_of_fixed
  intro attrs
  have hnone : idFor? [] attrs = none := by
    unfold idFor?
    split
    · cases Fields.text? "id" attrs <;> rfl
    · rfl
  rw [substituteId_eq, hnone]

theorem substituteIds_inPlace (ids : Dictionary String) (tree : Value) : substituteIds ids tree =
    if isEmptyTree tree || ids.isEmpty then tree
    else visitObjects (changeAttrs ["media", "mediaInline"] (substituteId ids)) tree.depth tree := by
  rw [(substituteId_local ids).visitObjects_eq (substituteId_putsScalars ids) (Nat.le_refl _)]
  split
  · rename_i hnothing
    obtain hempty | hids := Bool.or_eq_true_iff.1 hnothing
    · exact mapObjects_of_isEmptyTree hempty _ _
    · obtain rfl := List.isEmpty_iff.1 hids
      exact substituteIds_nil tree
  · rfl

theorem clampWidths_inPlace (limit : Option Nat) (tree : Value) : clampWidths limit tree =
    match limit.filter (0 < ·) with
    | none => tree
    | some limit =>
      if isEmptyTree tree then tree
      else visitObjects (changeAttrs ["media", "mediaInline", "mediaGroup"] (clampWidth limit)) tree.depth tree := by
  cases limit with
  | none => rfl
  | some limit =>
    cases limit with
    | zero => rfl
    | succ limit =>
      have hpos : Option.filter (fun limit => decide (0 < limit)) (some (limit + 1)) = some (limit + 1) := rfl
      rw [hpos]
      dsimp only
      rw [(clampWidth_local (limit + 1)).visitObjects_eq (clampWidth_putsScalars (limit + 1)) (Nat.le_refl _)]
      split
      · rename_i hempty
        exact mapObjects_of_isEmptyTree hempty _ _
      · rfl

/-! ## Printed and read again -/

theorem substituteIds_keeps {levels : Nat} {tree : Value} (hdepth : tree.depth ≤ levels)
    (hsorted : tree.isSorted = true) (ids : Dictionary String) :
    (substituteIds ids tree).depth ≤ levels ∧ (substituteIds ids tree).isSorted = true := by
  obtain ⟨hdepth, hkeeps⟩ := (substituteId_putsScalars ids).mapObjects_keeps ["media", "mediaInline"] hdepth
  exact ⟨hdepth, hkeeps hsorted⟩

theorem clampWidths_keeps {levels : Nat} {tree : Value} (hdepth : tree.depth ≤ levels)
    (hsorted : tree.isSorted = true) (limit : Option Nat) :
    (clampWidths limit tree).depth ≤ levels ∧ (clampWidths limit tree).isSorted = true := by
  cases limit with
  | none => exact ⟨hdepth, hsorted⟩
  | some limit =>
    obtain rfl | hpos := Nat.eq_zero_or_pos limit
    · exact ⟨hdepth, hsorted⟩
    · rw [clampWidths_pos hpos]
      obtain ⟨hdepth, hkeeps⟩ :=
        (clampWidth_putsScalars limit).mapObjects_keeps ["media", "mediaInline", "mediaGroup"] hdepth
      exact ⟨hdepth, hkeeps hsorted⟩

/-- **A tree that was read** and rewritten is read again as it was rewritten, if its numbers are whole. -/
theorem ofText_rewritten {text : String} {tree : Value} (hread : Value.ofText text = .ok tree) (ids : Dictionary String)
    (limit : Option Nat) (hwhole : (clampWidths limit (substituteIds ids tree)).isWhole = true) :
    Value.ofText (clampWidths limit (substituteIds ids tree)).pretty =
      .ok (clampWidths limit (substituteIds ids tree)) := by
  obtain ⟨hsorted, hdepth⟩ := Json.sorted_of_ofText hread
  obtain ⟨hdepth, hsorted⟩ := substituteIds_keeps hdepth hsorted ids
  obtain ⟨hdepth, hsorted⟩ := clampWidths_keeps hdepth hsorted limit
  exact Json.ofText_indented hwhole hsorted (Nat.lt_succ_of_le hdepth)

end Upload

end WikiPress
