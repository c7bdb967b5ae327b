import Mathlib.Data.List.TakeWhile
import WikiPress.Text.Blank

/-!
# Trimming

What is cut off the end of a text is the blanks behind its last character that is none. Blanks put behind a text are
cut off again, and nothing is left exactly of a blank text.
-/

namespace WikiPress.Text

theorem trimEnd_append_blankEnd (s : String) : trimEnd s ++ .ofList (blankEnd s.toList) = s := by
  rw [trimEnd, ← String.ofList_append, dropBlankEnd_append_blankEnd, String.ofList_toList]

theorem trimEnd_eq_empty_iff (s : String) : trimEnd s = "" ↔ isAllBlank s = true := by
  rw [← String.toList_inj, toList_trimEnd, dropBlankEnd]
  simp [List.dropWhile_eq_nil_iff, isAllBlank]

theorem trim_eq_empty_iff (s : String) : trim s = "" ↔ isAllBlank s = true := by
  rw [← String.toList_inj, toList_trim, dropBlankEnd, dropBlankStart]
  constructor
  · intro h
    have hall : ∀ c ∈ s.toList.dropWhile isBlank, isBlank c = true := by
      simpa [List.dropWhile_eq_nil_iff] using h
    have hhead := List.head?_dropWhile_not isBlank s.toList
    cases hdrop : s.toList.dropWhile isBlank with
    | nil => simpa [isAllBlank, List.dropWhile_eq_nil_iff] using hdrop
    | cons c cs =>
      rw [hdrop] at hall hhead
      simp [hall c (List.mem_cons_self ..)] at hhead
  · intro h
    have hdrop : s.toList.dropWhile isBlank = [] := by
      simpa [isAllBlank, List.dropWhile_eq_nil_iff] using h
    rw [hdrop]
    rfl

theorem dropBlankEnd_append_of_blank (cs : List Char) {blanks : List Char} (h : ∀ c ∈ blanks, isBlank c = true) :
    dropBlankEnd (cs ++ blanks) = dropBlankEnd cs := by
  have hreverse : ∀ c ∈ blanks.reverse, isBlank c = true := fun c hc => h c (List.mem_reverse.1 hc)
  rw [dropBlankEnd, dropBlankEnd, List.reverse_append, List.dropWhile_append_of_pos hreverse]

theorem trimEnd_append_blank {s t : String} (h : isAllBlank t = true) : trimEnd (s ++ t) = trimEnd s := by
  rw [trimEnd, trimEnd, String.toList_append, dropBlankEnd_append_of_blank _ (List.all_eq_true.1 h)]

/-- A text is what trimming leaves of it, with blanks around. -/
theorem exists_trim (s : String) : ∃ before after, s.toList = before ++ (trim s).toList ++ after ∧
    (∀ c ∈ before, isBlank c = true) ∧ ∀ c ∈ after, isBlank c = true := by
  refine ⟨s.toList.takeWhile isBlank, blankEnd (dropBlankStart s.toList), ?_, fun c => List.mem_takeWhile_imp,
    fun c => isBlank_of_mem_blankEnd⟩
  rw [toList_trim, List.append_assoc, dropBlankEnd_append_blankEnd, dropBlankStart, List.takeWhile_append_dropWhile]

theorem dropBlanks_surrounded {before core after : List Char} (hbefore : ∀ c ∈ before, isBlank c = true)
    (hcore : ∀ c ∈ core, isBlank c = false) (hafter : ∀ c ∈ after, isBlank c = true) :
    dropBlankEnd (dropBlankStart (before ++ core ++ after)) = core := by
  have hkept {cs : List Char} (h : ∀ c ∈ cs, isBlank c = false) : cs.dropWhile isBlank = cs :=
    List.dropWhile_eq_self_iff.2 fun hl => by simp [h]
  have hend : dropBlankEnd core = core := by
    rw [dropBlankEnd, hkept fun c hc => hcore c (List.mem_reverse.1 hc), List.reverse_reverse]
  rw [dropBlankStart, List.append_assoc, List.dropWhile_append_of_pos hbefore]
  cases core with
  | nil =>
    rw [List.nil_append, List.dropWhile_eq_nil_iff.2 hafter]
    rfl
  | cons c cs =>
    rw [List.cons_append, List.dropWhile_cons_of_neg (by simp [hcore]), ← List.cons_append,
      dropBlankEnd_append_of_blank _ hafter, hend]

/-- Line ends are blanks too. -/
theorem isAllBlank_trimLineStart (s : String) : isAllBlank (trimLineStart s) = isAllBlank s := by
  rw [isAllBlank, isAllBlank, toList_trimLineStart]
  induction s.toList with
  | nil => rfl
  | cons c cs ih =>
    by_cases h : c = '\n'
    · simp only [h, BEq.rfl, List.dropWhile_cons_of_pos, ih]
      rfl
    · rw [List.dropWhile_cons_of_neg (by simpa using h)]

/-! ## Blanks at the end -/

/-- A text that does not end with a blank, and the blanks behind it. -/
structure EndsWithBlanks (raw core blanks : String) : Prop where
  raw_eq : raw = core ++ blanks
  last : ∃ c, core.toList.getLast? = some c ∧ isBlank c = false
  blank : ∀ c ∈ blanks.toList, isBlank c = true

theorem getLast?_dropBlankEnd {cs : List Char} {c : Char} (h : (dropBlankEnd cs).getLast? = some c) :
    isBlank c = false := by
  rw [dropBlankEnd, List.getLast?_reverse] at h
  have hhead := List.head?_dropWhile_not isBlank cs.reverse
  rw [h] at hhead
  simpa using hhead

theorem endsWithBlanks {s : String} (h : isAllBlank s = false) :
    EndsWithBlanks s (trimEnd s) (.ofList (blankEnd s.toList)) where
  raw_eq := (trimEnd_append_blankEnd s).symm
  last := by
    cases hlast : (trimEnd s).toList.getLast? with
    | some c => exact ⟨c, rfl, getLast?_dropBlankEnd (toList_trimEnd s ▸ hlast)⟩
    | none =>
      have hempty : trimEnd s = "" := String.toList_inj.1 (List.getLast?_eq_none_iff.1 hlast)
      rw [(trimEnd_eq_empty_iff s).1 hempty] at h
      cases h
  blank c hc := isBlank_of_mem_blankEnd (by rwa [String.toList_ofList] at hc)

section
variable {raw core blanks : String} (h : EndsWithBlanks raw core blanks)
include h

theorem EndsWithBlanks.isAllBlank_eq : isAllBlank raw = false := by
  obtain ⟨c, hlast, hc⟩ := h.last
  refine List.all_eq_false.2 ⟨c, ?_, by simp [hc]⟩
  rw [h.raw_eq, String.toList_append]
  exact List.mem_append_left _ (List.mem_of_getLast? hlast)

theorem EndsWithBlanks.trimEnd_eq : trimEnd raw = core := by
  obtain ⟨c, hlast, hc⟩ := h.last
  obtain ⟨before, hcore⟩ := List.getLast?_eq_some_iff.1 hlast
  rw [h.raw_eq, trimEnd_append_blank (List.all_eq_true.2 h.blank), ← String.toList_inj, toList_trimEnd, hcore]
  simp [dropBlankEnd, hc]

theorem EndsWithBlanks.blankEnd_eq : String.ofList (blankEnd raw.toList) = blanks := by
  have hsplit := trimEnd_append_blankEnd raw
  rw [h.trimEnd_eq] at hsplit
  exact (String.append_right_inj core).1 (hsplit.trans h.raw_eq)

end

end WikiPress.Text
