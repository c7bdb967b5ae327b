import WikiPress.Link

/-!
# Links around formatted texts

A link goes inside the wrapper of its text, if the text has one: the same sign at both ends and nowhere between. An
issue takes the place of the text, and every other link goes around all of it.
-/

namespace WikiPress.Link

/-- The text stands between two of a sign that does not occur in it. -/
structure IsWrapped (wrapper : Char) (inner text : String) : Prop where
  sign : wrapper = '*' ∨ wrapper = '_'
  text_eq : text = wrapper.toString ++ inner ++ wrapper.toString
  nonempty : inner ≠ ""
  alone : wrapper ∉ inner.toList

/-- The markup of a link around a text. -/
inductive Linked (target : Target) (text : String) : String → Prop
  | issue {key : String} : target = .issue key → Linked target text ("jira:" ++ key ++ "[]")
  | inside {wrapper : Char} {inner : String} : (∀ key, target ≠ .issue key) → IsWrapped wrapper inner text →
      Linked target text (wrapper.toString ++ target.markup inner ++ wrapper.toString)
  | around : (∀ key, target ≠ .issue key) → (∀ wrapper inner, ¬ IsWrapped wrapper inner text) →
      Linked target text (target.markup text)

theorem innerOf?_eq_some_iff {wrapper : Char} {cs inner : List Char} : innerOf? wrapper cs = some inner ↔
    cs = wrapper :: (inner ++ [wrapper]) ∧ inner ≠ [] ∧ wrapper ∉ inner := by
  cases cs with
  | nil => simp [innerOf?]
  | cons c rest =>
    simp only [innerOf?]
    constructor
    · intro h
      split at h
      · rename_i hwrapped
        obtain ⟨rfl, hlast, hne, halone⟩ := hwrapped
        cases h
        obtain ⟨inner, rfl⟩ := List.getLast?_eq_some_iff.1 hlast
        rw [List.dropLast_concat] at hne halone ⊢
        exact ⟨rfl, hne, by simpa using halone⟩
      · cases h
    · rintro ⟨hcs, hne, halone⟩
      obtain ⟨rfl, rfl⟩ := List.cons.inj hcs
      rw [List.dropLast_concat, List.getLast?_concat, if_pos ⟨rfl, rfl, hne, by simpa using halone⟩]

theorem innerOf?_toList {wrapper : Char} (hsign : wrapper = '*' ∨ wrapper = '_') {text inner : String} :
    (innerOf? wrapper text.toList).map String.ofList = some inner ↔ IsWrapped wrapper inner text := by
  rw [Option.map_eq_some_iff]
  constructor
  · rintro ⟨cs, hcs, rfl⟩
    obtain ⟨htext, hne, halone⟩ := innerOf?_eq_some_iff.1 hcs
    refine ⟨hsign, ?_, ?_, by rwa [String.toList_ofList]⟩
    · rw [← String.toList_inj, htext]
      simp
    · exact fun hempty => hne (by simpa using congrArg String.toList hempty)
  · rintro ⟨-, rfl, hne, halone⟩
    have hne' : inner.toList ≠ [] := fun hempty => hne (String.toList_inj.1 hempty)
    exact ⟨inner.toList, innerOf?_eq_some_iff.2 ⟨by simp, hne', halone⟩, String.ofList_toList⟩

theorem IsWrapped.toList {wrapper : Char} {inner text : String} (h : IsWrapped wrapper inner text) :
    text.toList = wrapper :: (inner.toList ++ [wrapper]) := by
  rw [h.text_eq]
  simp

theorem IsWrapped.unique {wrapper wrapper' : Char} {inner inner' text : String} (h : IsWrapped wrapper inner text)
    (h' : IsWrapped wrapper' inner' text) : wrapper = wrapper' ∧ inner = inner' := by
  obtain ⟨rfl, hrest⟩ := List.cons.inj (h.toList.symm.trans h'.toList)
  exact ⟨rfl, String.toList_inj.1 (List.append_cancel_right hrest)⟩

theorem wrapper?_isWrapped {text inner : String} {wrapper : Char} (h : wrapper? text = some (wrapper, inner)) :
    IsWrapped wrapper inner text := by
  unfold wrapper? at h
  split at h
  · rename_i cs hcs
    cases h
    exact (innerOf?_toList (.inl rfl)).1 (by rw [hcs, Option.map_some])
  · obtain ⟨cs, hcs, heq⟩ := Option.map_eq_some_iff.1 h
    cases heq
    exact (innerOf?_toList (.inr rfl)).1 (by rw [hcs, Option.map_some])

theorem IsWrapped.wrapper?_eq {text inner : String} {wrapper : Char} (h : IsWrapped wrapper inner text) :
    wrapper? text = some (wrapper, inner) := by
  cases hfound : wrapper? text with
  | some found =>
    obtain ⟨hwrapper, hinner⟩ := (wrapper?_isWrapped hfound).unique h
    rw [← hwrapper, ← hinner]
  | none =>
    have hsome := (innerOf?_toList h.sign).2 h
    unfold wrapper? at hfound
    split at hfound
    · cases hfound
    · rename_i hstar
      obtain rfl | rfl := h.sign
      · rw [hstar] at hsome
        cases hsome
      · rw [Option.map_eq_none_iff.1 hfound] at hsome
        cases hsome

theorem Linked.markup_eq {target : Target} {text out : String} (h : Linked target text out) :
    markup target text = out := by
  cases h with
  | issue htarget =>
    subst htarget
    unfold markup
    split <;> rfl
  | inside hother hwrapped =>
    cases target with
    | issue key => exact absurd rfl (hother key)
    | _ => simp only [markup, hwrapped.wrapper?_eq]
  | around hother hwhole =>
    have hnone : wrapper? text = none :=
      Option.eq_none_iff_forall_ne_some.2 fun found hfound => hwhole _ _ (wrapper?_isWrapped hfound)
    cases target with
    | issue key => exact absurd rfl (hother key)
    | _ => simp only [markup, hnone]

theorem exists_linked (target : Target) (text : String) : ∃ out, Linked target text out := by
  by_cases hissue : ∃ key, target = .issue key
  · obtain ⟨key, hkey⟩ := hissue
    exact ⟨_, .issue hkey⟩
  · have hother := not_exists.1 hissue
    by_cases hwrapped : ∃ wrapper inner, IsWrapped wrapper inner text
    · obtain ⟨wrapper, inner, hwrapped⟩ := hwrapped
      exact ⟨_, .inside hother hwrapped⟩
    · exact ⟨_, .around hother fun wrapper inner h => hwrapped ⟨wrapper, inner, h⟩⟩

end WikiPress.Link
