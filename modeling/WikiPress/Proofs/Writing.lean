import WikiPress.Proofs.Pointer

/-!
# What a pass writes

A change of attributes that puts scalars in the place of others makes a pass that does just this: at every pointer,
however deep, stands what stood there before or what the change writes into the attributes of the tree before.
-/

namespace WikiPress.Upload

open Json (Value Fields PathStep)

/-! ## What a change writes -/

/-- The scalars that a change of attributes puts in the place of others, by key. -/
structure Writes (change : Fields → Fields) (write : Fields → String → Option Value) : Prop where
  keys : ∀ attrs, (change attrs).map Prod.fst = attrs.map Prod.fst
  lookup : ∀ attrs key, (change attrs).lookup key = (write attrs key).or (attrs.lookup key)
  attrs : ∀ attrs, write attrs "attrs" = none
  scalar : ∀ attrs key value, write attrs key = some value →
    value.isScalar = true ∧ ∃ old, attrs.lookup key = some old ∧ old.shape = value.shape

section
variable {types : List String} {change : Fields → Fields} (h : Local change)
include h

/-- The attributes that a pass leaves behind, of the attributes that it finds. -/
theorem Local.child?_attrs {step : PathStep} {value : Value} {attrs : Fields}
    (hat : attrsAt? types step value = some attrs) :
    (mapObjects (changeAttrs types change) value).child? step =
      some (.object (changeAttrs types change (mapFields (changeAttrs types change) (change attrs)))) := by
  obtain ⟨rfl, fields, rfl, ha⟩ := attrsAt?_eq_some.1 hat
  have hnode : attrsOf? types (mapFields (changeAttrs types change) fields) =
      some (changeAttrs types change (mapFields (changeAttrs types change) attrs)) := by
    rw [attrsOf?_mapFields, ha]
    rfl
  rw [mapObjects, Value.child?, changeAttrs_eq, hnode]
  rw [Dictionary.lookup_replace, if_pos rfl, (attrsOf?_eq_some.1 hnode).2, ← h.map, h.changeAttrs_comm]
  rfl

variable {write : Fields → String → Option Value} (w : Writes change write)
include w

theorem Local.lookup_attrs (attrs : Fields) (key : String) :
    (changeAttrs types change (mapFields (changeAttrs types change) (change attrs))).lookup key =
      (write attrs key).or ((mapObjects (changeAttrs types change) (.object attrs)).child? (.key key)) := by
  rw [mapObjects, Value.child?]
  by_cases hkey : key = "attrs"
  · subst hkey
    rw [← h.map, h.changeAttrs_comm, h.attrs, w.attrs, Option.none_or]
  · rw [lookup_changeAttrs _ _ hkey, lookup_changeAttrs _ _ hkey, lookup_mapFields, lookup_mapFields, w.lookup]
    cases hw : write attrs key with
    | none => rfl
    | some value =>
      rw [Option.some_or, Option.some_or, Option.map_some, mapObjects_of_isScalar (w.scalar _ _ _ hw).1]

end

/-! ## What a pass changes -/

/-- What is at a place before and after a pass that puts new scalars into some places. -/
structure ChangedAt (new : Value → Prop) (before after : Option Value) : Prop where
  shape : after.map Value.shape = before.map Value.shape
  written : ∀ value, new value → after = some value
  kept : ∀ value, before = some value → value.isScalar = true → (∀ value', ¬new value') → after = some value

namespace ChangedAt

variable {new new' : Value → Prop} {before after : Option Value}

theorem congr (h : ChangedAt new before after) (hnew : ∀ value, new value ↔ new' value) :
    ChangedAt new' before after where
  shape := h.shape
  written value hvalue := h.written value ((hnew value).2 hvalue)
  kept value hbefore hscalar hnone :=
    h.kept value hbefore hscalar fun value' hvalue' => hnone value' ((hnew value').1 hvalue')

theorem absent (h : ∀ value, ¬new value) : ChangedAt new none none where
  shape := rfl
  written value hvalue := absurd hvalue (h value)
  kept value hbefore := by cases hbefore

theorem write {old value : Value} (hshape : old.shape = value.shape) (h : ∀ value', new value' ↔ value' = value) :
    ChangedAt new (some old) (some value) where
  shape := congrArg some hshape.symm
  written value' hvalue' := by rw [(h value').1 hvalue']
  kept value' hbefore hscalar hnone := absurd ((h value).2 rfl) (hnone value)

end ChangedAt

/-- A value that a pass puts at the end of a pointer, as the tree before the pass has it. -/
def Gets (types : List String) (write : Fields → String → Option Value) (tree : Value) (pointer : List PathStep)
    (value : Value) : Prop :=
  ∃ above fields attrs key, pointer = above ++ [.key "attrs", .key key] ∧ tree.at? above = some (.object fields) ∧
    attrsOf? types fields = some attrs ∧ write attrs key = some value

section
variable {types : List String} {write : Fields → String → Option Value} {tree value : Value}

theorem gets_nil : ¬ Gets types write tree [] value := by
  rintro ⟨above, fields, attrs, key, hpointer, -⟩
  exact absurd hpointer (by simp)

theorem gets_cons {step : PathStep} {pointer : List PathStep} : Gets types write tree (step :: pointer) value ↔
    (∃ attrs key, attrsAt? types step tree = some attrs ∧ pointer = [.key key] ∧ write attrs key = some value) ∨
      ∃ child, tree.child? step = some child ∧ Gets types write child pointer value := by
  constructor
  · rintro ⟨above, fields, attrs, key, hpointer, htree, hattrs, hwrite⟩
    cases above with
    | nil =>
      obtain ⟨rfl, rfl⟩ := List.cons.inj hpointer
      obtain rfl := Option.some.inj htree
      exact .inl ⟨attrs, key, hattrs, rfl, hwrite⟩
    | cons step' above =>
      obtain ⟨rfl, rfl⟩ := List.cons.inj hpointer
      obtain ⟨child, hchild, hobject⟩ := Option.bind_eq_some_iff.1 htree
      exact .inr ⟨child, hchild, above, fields, attrs, key, rfl, hobject, hattrs, hwrite⟩
  · rintro (⟨attrs, key, hat, rfl, hwrite⟩ | ⟨child, hchild, above, fields, attrs, key, rfl, hobject, hattrs, hwrite⟩)
    · obtain ⟨rfl, fields, rfl, hattrs⟩ := attrsAt?_eq_some.1 hat
      exact ⟨[], fields, attrs, key, rfl, rfl, hattrs, hwrite⟩
    · refine ⟨step :: above, fields, attrs, key, rfl, ?_, hattrs, hwrite⟩
      rw [Value.at?, hchild]
      exact hobject

theorem gets_cons_of_none {step : PathStep} {pointer : List PathStep} (hat : attrsAt? types step tree = none) :
    Gets types write tree (step :: pointer) value ↔
      ∃ child, tree.child? step = some child ∧ Gets types write child pointer value := by
  rw [gets_cons, hat]
  exact or_iff_right (by rintro ⟨_, _, hattrs, _⟩; cases hattrs)

theorem gets_cons_of_attrs {step : PathStep} {pointer : List PathStep} {attrs : Fields}
    (hat : attrsAt? types step tree = some attrs) :
    Gets types write tree (step :: pointer) value ↔
      (∃ key, pointer = [.key key] ∧ write attrs key = some value) ∨ Gets types write (.object attrs) pointer value := by
  obtain ⟨rfl, fields, rfl, hattrs⟩ := attrsAt?_eq_some.1 hat
  have hchild : (Value.object fields).child? (.key "attrs") = some (.object attrs) := (attrsOf?_eq_some.1 hattrs).2
  simp [gets_cons, hat, hchild]

theorem not_gets_of_isScalar (h : tree.isScalar = true) (pointer : List PathStep) :
    ¬ Gets types write tree pointer value := by
  cases pointer with
  | nil => exact gets_nil
  | cons step pointer =>
    rw [gets_cons]
    rintro (⟨attrs, key, hat, -⟩ | ⟨child, hchild, -⟩)
    · obtain ⟨-, fields, rfl, -⟩ := attrsAt?_eq_some.1 hat
      cases h
    · rw [Value.child?_of_isScalar h] at hchild
      cases hchild

end

section
variable {types : List String} {change : Fields → Fields} {write : Fields → String → Option Value}
  (w : Writes change write)
include w

/-- A scalar among the attributes that the change writes. -/
theorem Writes.changedAt {step : PathStep} {tree value : Value} {attrs : Fields} {key : String}
    (hat : attrsAt? types step tree = some attrs) (hwrite : write attrs key = some value) (pointer : List PathStep) :
    ChangedAt (Gets types write tree (step :: .key key :: pointer)) ((Value.object attrs).at? (.key key :: pointer))
      (value.at? pointer) := by
  obtain ⟨hscalar, old, hold, hshape⟩ := w.scalar attrs key value hwrite
  have holdScalar : old.isScalar = true := Value.isScalar_of_shape hshape hscalar
  have hbelow : ∀ value', ¬Gets types write (.object attrs) (.key key :: pointer) value' := by
    intro value' hgets
    obtain ⟨attrs', _, hattrs, -⟩ | ⟨child, hchild, hgets⟩ := gets_cons.1 hgets
    · obtain ⟨hkey, -⟩ := attrsAt?_eq_some.1 hattrs
      cases hkey
      rw [w.attrs] at hwrite
      cases hwrite
    · obtain rfl : old = child := Option.some.inj (hold.symm.trans hchild)
      exact not_gets_of_isScalar holdScalar pointer hgets
  have hbefore : (Value.object attrs).at? (.key key :: pointer) = old.at? pointer := by
    rw [Value.at?, Value.child?, hold, Option.bind_some]
  rw [hbefore]
  cases pointer with
  | nil =>
    refine .write hshape fun value' => ?_
    rw [gets_cons_of_attrs hat, or_iff_left (hbelow value')]
    simp [hwrite, eq_comm]
  | cons step' pointer =>
    rw [Value.at?_of_isScalar holdScalar, Value.at?_of_isScalar hscalar]
    refine .absent fun value' => ?_
    rw [gets_cons_of_attrs hat, or_iff_left (hbelow value')]
    simp

variable (h : Local change)
include h

/-- What is in the attributes that a pass leaves behind is written there or what the pass leaves of what was there. -/
theorem Local.attrs_changedAt {step : PathStep} {tree : Value} {attrs : Fields}
    (hat : attrsAt? types step tree = some attrs) {pointer : List PathStep}
    (ih : ChangedAt (Gets types write (.object attrs) pointer) ((Value.object attrs).at? pointer)
      ((mapObjects (changeAttrs types change) (.object attrs)).at? pointer)) :
    ChangedAt (Gets types write tree (step :: pointer)) ((Value.object attrs).at? pointer)
      (((mapObjects (changeAttrs types change) tree).child? step).bind (Value.at? pointer)) := by
  rw [h.child?_attrs hat, Option.bind_some]
  cases pointer with
  | nil =>
    refine ⟨?_, ?_, ?_⟩
    · simp only [Value.at?, Option.map_some, Value.shape, keys_changeAttrs, keys_mapFields, w.keys]
    · intro value hgets
      simp [gets_cons_of_attrs hat, gets_nil] at hgets
    · rintro value ⟨rfl⟩ hscalar
      cases hscalar
  | cons step' pointer =>
    cases step' with
    | index n =>
      refine .congr ih fun value => ?_
      simp [gets_cons_of_attrs hat]
    | key key =>
      have hafter : ∀ fields : Fields, (Value.object fields).at? (.key key :: pointer) =
          (fields.lookup key).bind (Value.at? pointer) := fun _ => rfl
      rw [hafter (changeAttrs ..), h.lookup_attrs w]
      cases hwrite : write attrs key with
      | some value => exact w.changedAt hat hwrite pointer
      | none =>
        refine .congr ih fun value => ?_
        simp only [gets_cons_of_attrs hat, List.cons.injEq, PathStep.key.injEq]
        refine (or_iff_right ?_).symm
        rintro ⟨_, ⟨rfl, rfl⟩, hvalue⟩
        rw [hwrite] at hvalue
        cases hvalue

/-- **What a pass changes.** A pass puts scalars where its change writes them, and everything else stays. -/
theorem Local.changedAt (pointer : List PathStep) (tree : Value) :
    ChangedAt (Gets types write tree pointer) (tree.at? pointer)
      ((mapObjects (changeAttrs types change) tree).at? pointer) := by
  induction pointer generalizing tree with
  | nil =>
    refine ⟨?_, fun value hgets => absurd hgets gets_nil, ?_⟩
    · simp only [Value.at?, Option.map_some, shape_mapObjects]
    · rintro value ⟨rfl⟩ hscalar -
      rw [Value.at?, mapObjects_of_isScalar hscalar]
  | cons step pointer ih =>
    cases hat : attrsAt? types step tree with
    | some attrs =>
      have hchild : tree.child? step = some (.object attrs) := by
        obtain ⟨rfl, fields, rfl, hattrs⟩ := attrsAt?_eq_some.1 hat
        exact (attrsOf?_eq_some.1 hattrs).2
      rw [Value.at?, Value.at?, hchild]
      exact h.attrs_changedAt w hat (ih (.object attrs))
    | none =>
      rw [Value.at?, Value.at?, child?_mapObjects types change hat]
      cases hchild : tree.child? step with
      | none => exact .absent fun value => by simp [gets_cons_of_none hat, hchild]
      | some child => exact (ih child).congr fun value => by simp [gets_cons_of_none hat, hchild]

end

end WikiPress.Upload
