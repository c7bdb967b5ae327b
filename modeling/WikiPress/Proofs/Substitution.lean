import WikiPress.Proofs.Pass

/-!
# Ids for names

The pass that puts ids in the place of file names may be made again without any effect, unless an id that it puts
in is a name as well, and one for another id.
-/

namespace WikiPress.Upload

open Json (Value Fields)

/-- The id that a medium of the attachments gets for its name. -/
def idFor? (ids : Dictionary String) (attrs : Fields) : Option String :=
  if Fields.text? "collection" attrs = some "attachments" then
    (Fields.text? "id" attrs).bind fun name => List.lookup name ids
  else none

section
variable (ids : Dictionary String) (attrs : Fields)

theorem substituteId_eq : substituteId ids attrs =
    match idFor? ids attrs with
    | some id => Dictionary.replace "id" (.string id) attrs
    | none => attrs := by
  unfold substituteId idFor?
  by_cases hc : Fields.text? "collection" attrs = some "attachments"
  · rw [if_pos hc, hc]
    cases (Fields.text? "id" attrs).bind fun name => List.lookup name ids <;> rfl
  · rw [if_neg hc]
    split
    · rename_i h _
      exact absurd h hc
    · rfl

theorem idFor?_congr {attrs' : Fields} (hc : Fields.text? "collection" attrs' = Fields.text? "collection" attrs)
    (hi : Fields.text? "id" attrs' = Fields.text? "id" attrs) : idFor? ids attrs' = idFor? ids attrs := by
  rw [idFor?, idFor?, hc, hi]

theorem lookup_substituteId {key : String} (h : key ≠ "id") :
    (substituteId ids attrs).lookup key = attrs.lookup key := by
  rw [substituteId_eq]
  cases idFor? ids attrs with
  | none => rfl
  | some id => exact (Dictionary.lookup_replace ..).trans (if_neg h)

end

theorem substituteId_local (ids : Dictionary String) : Local (substituteId ids) where
  type attrs := by rw [Fields.text?, lookup_substituteId ids attrs (by decide), Fields.text?]
  attrs attrs := lookup_substituteId ids attrs (by decide)
  replace value attrs := by
    have hfor : idFor? ids (Dictionary.replace "attrs" value attrs) = idFor? ids attrs :=
      idFor?_congr ids attrs (text?_replace_of_ne (by decide) value attrs) (text?_replace_of_ne (by decide) value attrs)
    rw [substituteId_eq, substituteId_eq, hfor]
    cases idFor? ids attrs with
    | none => rfl
    | some id => exact Dictionary.replace_comm (by decide) ..
  map inner attrs := by
    have hfor : idFor? ids (mapFields inner attrs) = idFor? ids attrs :=
      idFor?_congr ids attrs (text?_mapFields inner "collection" attrs) (text?_mapFields inner "id" attrs)
    rw [substituteId_eq, substituteId_eq, hfor]
    cases idFor? ids attrs with
    | none => rfl
    | some id => exact (mapFields_replace inner "id" (.string id) attrs).symm

/-! ## Making the pass again -/

section
variable {ids : Dictionary String} {id : String}

theorem lookup_of_idFor? {attrs : Fields} (h : idFor? ids attrs = some id) :
    ∃ name, Fields.text? "id" attrs = some name ∧ List.lookup name ids = some id := by
  unfold idFor? at h
  split at h
  · exact Option.bind_eq_some_iff.1 h
  · cases h

/-- After an id is put in, it is looked up as a name. -/
theorem idFor?_replace {attrs : Fields} (h : idFor? ids attrs = some id) :
    idFor? ids (Dictionary.replace "id" (.string id) attrs) = List.lookup id ids := by
  have hid : Fields.text? "id" (Dictionary.replace "id" (.string id) attrs) = some id := by
    obtain ⟨name, hname, -⟩ := lookup_of_idFor? h
    unfold Fields.text? at hname ⊢
    rw [Dictionary.lookup_replace, if_pos rfl]
    cases hl : attrs.lookup "id" with
    | none => rw [hl] at hname; cases hname
    | some value => rfl
  unfold idFor? at h ⊢
  rw [text?_replace_of_ne (by decide), hid]
  split at h
  case isTrue hc => exact if_pos hc
  case isFalse => cases h

theorem substituteId_substituteId
    (h : ∀ name id, List.lookup name ids = some id → (List.lookup id ids).isSome → List.lookup id ids = some id)
    (attrs : Fields) : substituteId ids (substituteId ids attrs) = substituteId ids attrs := by
  cases hfor : idFor? ids attrs with
  | none => simp only [substituteId_eq, hfor]
  | some id =>
    obtain ⟨name, -, hname⟩ := lookup_of_idFor? hfor
    have hagain := idFor?_replace hfor
    cases hid : List.lookup id ids with
    | none =>
      rw [hid] at hagain
      simp only [substituteId_eq, hfor, hagain]
    | some id' =>
      rw [h name id hname (by rw [hid]; rfl)] at hagain
      simp only [substituteId_eq, hfor, hagain, Dictionary.replace_replace]

/-- A medium of the attachments with nothing but an id. -/
def attachment (id : String) : Value :=
  .object [("attrs", .object [("collection", .string "attachments"), ("id", .string id)]), ("type", .string "media")]

theorem substituteIds_attachment {name : String} (h : List.lookup name ids = some id) :
    substituteIds ids (attachment name) = attachment id := by
  let attrs : Fields := [("collection", .string "attachments"), ("id", .string name)]
  have hfor : idFor? ids attrs = some id := h
  have hnode : substituteIds ids (attachment name) =
      .object [("attrs", .object (substituteId ids attrs)), ("type", .string "media")] := rfl
  rw [hnode, substituteId_eq, hfor]
  rfl

end

/-- **When the pass may be made again.** It changes no tree a second time exactly if every id for a name that is a
name itself is the id for itself. -/
theorem substituteIds_substituteIds_iff (ids : Dictionary String) :
    (∀ tree, substituteIds ids (substituteIds ids tree) = substituteIds ids tree) ↔
      ∀ name id, List.lookup name ids = some id → (List.lookup id ids).isSome → List.lookup id ids = some id := by
  constructor
  · intro h name id hname hsome
    obtain ⟨id', hid⟩ := Option.isSome_iff_exists.1 hsome
    have htwice := h (attachment name)
    rw [substituteIds_attachment hname, substituteIds_attachment hid] at htwice
    have hsame : id' = id := by simpa [attachment] using htwice
    rw [hid, hsame]
  · intro h tree
    have hchange : substituteId ids ∘ substituteId ids = substituteId ids :=
      funext fun attrs => substituteId_substituteId h attrs
    unfold substituteIds
    rw [(substituteId_local ids).mapObjects_twice, hchange]

end WikiPress.Upload
