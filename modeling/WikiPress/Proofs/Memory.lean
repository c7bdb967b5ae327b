import WikiPress.Proofs.Judgement
import WikiPress.Proofs.Leaf

/-!
# Memory

A memory that rendering leaves behind extends the one it found: anchors are added at the end and never
twice, no mention is forgotten, and a mark is kept or taken away.
-/

namespace WikiPress.Render

/-- What a later memory has to do with an earlier one. -/
structure Grows (before after : Memory) : Prop where
  anchors : before.anchors <+: after.anchors
  nodup : before.anchors.Nodup → after.anchors.Nodup
  mentions : ∀ name, (before.mentions.lookup name).isSome → (after.mentions.lookup name).isSome
  skipped : after.skipped = before.skipped ∨ after.skipped = none

namespace Grows

variable {a b c : Memory}

theorem refl (a : Memory) : Grows a a :=
  ⟨List.prefix_refl _, id, fun _ h => h, Or.inl rfl⟩

theorem trans (h : Grows a b) (h' : Grows b c) : Grows a c where
  anchors := h.anchors.trans h'.anchors
  nodup hd := h'.nodup (h.nodup hd)
  mentions name hn := h'.mentions name (h.mentions name hn)
  skipped := by
    rcases h'.skipped with hc | hc
    · rw [hc]; exact h.skipped
    · exact Or.inr hc

/-- A mark that is set and gone again leaves no trace. -/
theorem trans_skip {place : Place} (h : Grows a b) (h' : Grows (b.skip place) c) (hc : c.skipped = none) :
    Grows a c where
  anchors := h.anchors.trans h'.anchors
  nodup hd := h'.nodup (h.nodup hd)
  mentions name hn := h'.mentions name (h.mentions name hn)
  skipped := Or.inr hc

end Grows

/-! ## Anchors and mentions -/

theorem addAnchors_grows (anchors ids : List String) :
    anchors <+: addAnchors anchors ids ∧ (anchors.Nodup → (addAnchors anchors ids).Nodup) := by
  induction ids generalizing anchors with
  | nil => exact ⟨List.prefix_refl _, id⟩
  | cons first ids ih =>
    rw [addAnchors, List.foldl_cons]
    by_cases h : anchors.contains first = true
    · rw [if_pos h]
      exact ih anchors
    · rw [if_neg h]
      obtain ⟨hp, hn⟩ := ih (anchors ++ [first])
      refine ⟨(List.prefix_append _ _).trans hp, fun hd => hn ?_⟩
      rw [List.contains_iff_mem] at h
      refine List.nodup_append.2 ⟨hd, by simp, ?_⟩
      intro id hi other ho he
      rw [List.mem_singleton] at ho
      subst ho he
      exact h hi

theorem isSome_addMentions {name : String} (users : List (String × String)) :
    ∀ {mentions : Dictionary String}, (mentions.lookup name).isSome →
      ((addMentions mentions users).lookup name).isSome := by
  induction users with
  | nil => exact id
  | cons user users ih =>
    intro mentions h
    rw [addMentions, List.foldl_cons]
    apply ih
    rw [Dictionary.lookup_insert]
    split
    · rfl
    · exact h

/-! ## Steps -/

/-- A step that only adds to the memory, whatever it gives. -/
abbrev Adds {α : Type} (m₀ : Memory) (step : RenderM α) : Prop :=
  Holds (Grows m₀) step fun _ => True

/-- What reads only anchors only adds. -/
theorem Reads.adds {α : Type} {step : RenderM α} {anchors : List String} {mentions : List (String × String)}
    (h : Reads step anchors mentions) (m₀ : Memory) : Adds m₀ step := by
  obtain ⟨value, notices, hstep⟩ := h
  intro memory hm
  refine ⟨trivial, hm.trans ?_⟩
  rw [hstep]
  obtain ⟨hp, hn⟩ := addAnchors_grows memory.anchors anchors
  exact ⟨hp, hn, fun _ => isSome_addMentions mentions, Or.inl rfl⟩

theorem adds_takeSkip (m₀ : Memory) (place : Place) : Adds m₀ (takeSkip place) := by
  intro memory hm
  refine ⟨trivial, hm.trans ?_⟩
  show Grows memory (memory.takeSkip place).2
  unfold Memory.takeSkip
  split
  · exact ⟨List.prefix_refl _, id, fun _ h => h, Or.inr rfl⟩
  · exact .refl memory

end WikiPress.Render
