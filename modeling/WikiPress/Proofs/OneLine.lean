import WikiPress.Proofs.Trimming

/-!
# Texts in one line

Texts without a line end. Trimming leaves a line end in a text exactly where the text breaks inside, with something to
see on both sides.
-/

namespace WikiPress.Text

def OneLine (s : String) : Prop :=
  '\n' ∉ s.toList

instance (s : String) : Decidable (OneLine s) :=
  inferInstanceAs (Decidable (¬_))

@[simp] theorem oneLine_append {a b : String} : OneLine (a ++ b) ↔ OneLine a ∧ OneLine b := by
  simp [OneLine]

@[simp] theorem oneLine_ofList {cs : List Char} : OneLine (.ofList cs) ↔ '\n' ∉ cs := by
  simp [OneLine]

namespace OneLine

variable {a b : String}

theorem empty : OneLine "" := List.not_mem_nil

theorem append (h : OneLine a) (h' : OneLine b) : OneLine (a ++ b) :=
  oneLine_append.2 ⟨h, h'⟩

theorem join : ∀ {texts : List String}, (∀ s ∈ texts, OneLine s) → OneLine (String.join texts)
  | [], _ => empty
  | s :: texts, h => by
    rw [String.join_cons]
    exact (h s (List.mem_cons_self ..)).append (join fun t ht => h t (List.mem_cons_of_mem _ ht))

end OneLine

/-! ## Breaks inside a text -/

/-- There is a line end in the text with something to see before it and behind it. -/
def BreaksInside (s : String) : Prop :=
  ∃ before after, s = before ++ "\n" ++ after ∧ isAllBlank before = false ∧ isAllBlank after = false

theorem isAllBlank_eq_false_iff {s : String} : isAllBlank s = false ↔ ∃ c ∈ s.toList, isBlank c = false := by
  simp [isAllBlank]

theorem dropBlankStart_append {before : List Char} (h : ∃ c ∈ before, isBlank c = false) (rest : List Char) :
    dropBlankStart (before ++ rest) = dropBlankStart before ++ rest := by
  have hne : (before.dropWhile isBlank).isEmpty = false := by
    simpa [List.dropWhile_eq_nil_iff] using h
  rw [dropBlankStart, List.dropWhile_append, hne]
  rfl

theorem dropBlankEnd_append {rest : List Char} (h : ∃ c ∈ rest, isBlank c = false) (before : List Char) :
    dropBlankEnd (before ++ rest) = before ++ dropBlankEnd rest := by
  have hrest : ∃ c ∈ rest.reverse, isBlank c = false := by simpa using h
  rw [dropBlankEnd, List.reverse_append, ← dropBlankStart, dropBlankStart_append hrest]
  simp [dropBlankEnd, dropBlankStart]

theorem exists_of_dropBlankStart {c : Char} {cs before after : List Char} (hc : isBlank c = true)
    (h : dropBlankStart cs = before ++ c :: after) : ∃ d ∈ before, isBlank d = false := by
  have hhead := List.head?_dropWhile_not isBlank cs
  rw [← dropBlankStart, h] at hhead
  cases before with
  | nil => simp [hc] at hhead
  | cons d before => exact ⟨d, List.mem_cons_self .., by simpa using hhead⟩

theorem exists_of_dropBlankEnd {c : Char} {cs before after : List Char} (hc : isBlank c = true)
    (h : dropBlankEnd cs = before ++ c :: after) : ∃ d ∈ after, isBlank d = false := by
  have hlast : ∀ d, (before ++ c :: after).getLast? = some d → isBlank d = false := by
    rw [← h]
    exact fun d => getLast?_dropBlankEnd
  obtain rfl | ⟨rest, d, rfl⟩ := List.eq_nil_or_concat after
  · rw [hlast c (by simp)] at hc
    cases hc
  · have hassoc : before ++ c :: rest.concat d = (before ++ c :: rest) ++ [d] := by simp
    exact ⟨d, by simp, hlast d (by rw [hassoc, List.getLast?_concat])⟩

theorem breaksInside_iff {s : String} : BreaksInside s ↔ '\n' ∈ (trim s).toList := by
  have hbreak : isBlank '\n' = true := by decide
  rw [toList_trim]
  constructor
  · intro ⟨before, after, hs, hbefore, hafter⟩
    have hcs : s.toList = before.toList ++ '\n' :: after.toList := by
      rw [hs]
      simp
    obtain ⟨d, hd, hblank⟩ := isAllBlank_eq_false_iff.1 hafter
    rw [hcs, dropBlankStart_append (isAllBlank_eq_false_iff.1 hbefore),
      dropBlankEnd_append ⟨d, List.mem_cons_of_mem _ hd, hblank⟩]
    show '\n' ∈ _ ++ dropBlankEnd (['\n'] ++ after.toList)
    rw [dropBlankEnd_append (isAllBlank_eq_false_iff.1 hafter)]
    simp
  · intro hm
    obtain ⟨before, after, hsplit⟩ := List.append_of_mem hm
    have hend := dropBlankEnd_append_blankEnd (dropBlankStart s.toList)
    have hstart : s.toList.takeWhile isBlank ++ dropBlankStart s.toList = s.toList := List.takeWhile_append_dropWhile
    rw [hsplit, List.append_assoc, List.cons_append] at hend
    obtain ⟨d, hd, hdblank⟩ := exists_of_dropBlankStart hbreak hend.symm
    obtain ⟨e, he, heblank⟩ := exists_of_dropBlankEnd hbreak hsplit
    rw [← hend] at hstart
    refine ⟨.ofList (s.toList.takeWhile isBlank ++ before), .ofList (after ++ blankEnd (dropBlankStart s.toList)),
      ?_, isAllBlank_eq_false_iff.2 ⟨d, by simp [hd], hdblank⟩, isAllBlank_eq_false_iff.2 ⟨e, by simp [he], heblank⟩⟩
    rw [← String.toList_inj]
    simpa using hstart.symm

theorem oneLine_trim_iff {s : String} : OneLine (trim s) ↔ ¬BreaksInside s :=
  not_congr breaksInside_iff.symm

theorem OneLine.not_breaksInside {s : String} (h : OneLine s) : ¬BreaksInside s := by
  intro ⟨before, after, hs, _, _⟩
  rw [hs] at h
  simp [OneLine] at h

end WikiPress.Text
