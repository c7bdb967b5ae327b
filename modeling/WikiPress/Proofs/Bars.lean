import WikiPress.Render.Cell
import WikiPress.Render.Inline

/-!
# Bars

A bar is open when no backslash stands right before it: the open bars of a row are where its cells begin.
The two passes of escaping come to one, and leave no bar open.
-/

namespace WikiPress.Render

/-! ## Open bars -/

/-- The number of open bars; `escaped` says whether a backslash comes before the list. -/
def openBarsAfter (escaped : Bool) : List Char → Nat
  | [] => 0
  | c :: cs => (if c = '|' ∧ escaped = false then 1 else 0) + openBarsAfter (c = '\\') cs

def openBars (s : String) : Nat :=
  openBarsAfter false s.toList

/-- Does a backslash come before what follows a list? -/
def escapedAfter (escaped : Bool) : List Char → Bool
  | [] => escaped
  | c :: cs => escapedAfter (c = '\\') cs

theorem escapedAfter_append (escaped : Bool) (cs ds : List Char) :
    escapedAfter escaped (cs ++ ds) = escapedAfter (escapedAfter escaped cs) ds := by
  induction cs generalizing escaped with
  | nil => rfl
  | cons c cs ih => exact ih _

theorem escapedAfter_of_ne {cs : List Char} (h : ∀ c ∈ cs, c ≠ '\\') : escapedAfter false cs = false := by
  induction cs with
  | nil => rfl
  | cons c cs ih =>
    obtain ⟨hc, hr⟩ := List.forall_mem_cons.1 h
    rw [escapedAfter, decide_eq_false hc, ih hr]

theorem openBarsAfter_append : ∀ (escaped : Bool) (cs ds : List Char),
    openBarsAfter escaped (cs ++ ds) = openBarsAfter escaped cs + openBarsAfter (escapedAfter escaped cs) ds
  | _, [], _ => by rw [List.nil_append, openBarsAfter, escapedAfter, Nat.zero_add]
  | _, c :: cs, ds => by
    rw [List.cons_append, openBarsAfter, openBarsAfter, escapedAfter, openBarsAfter_append, Nat.add_assoc]

theorem openBarsAfter_of_not_mem {cs : List Char} (h : '|' ∉ cs) : ∀ escaped, openBarsAfter escaped cs = 0 := by
  induction cs with
  | nil => exact fun _ => rfl
  | cons c cs ih =>
    intro escaped
    rw [List.mem_cons, not_or] at h
    rw [openBarsAfter, if_neg fun hc => h.1 hc.1.symm, ih h.2]

theorem openBarsAfter_escaped (escaped : Bool) (cs : List Char) :
    openBarsAfter escaped ('\\' :: '|' :: cs) = openBarsAfter false cs := by
  simp [openBarsAfter]

/-- What stands before a text can only close a bar at its start. -/
theorem openBarsAfter_le (escaped : Bool) (cs : List Char) :
    openBarsAfter escaped cs ≤ openBarsAfter false cs := by
  cases cs with
  | nil => exact Nat.le_refl _
  | cons c cs =>
    rw [openBarsAfter, openBarsAfter]
    refine Nat.add_le_add_right ?_ _
    by_cases hc : c = '|' ∧ escaped = false
    · exact Nat.le_of_eq (by rw [if_pos hc, if_pos ⟨hc.1, rfl⟩])
    · rw [if_neg hc]
      exact Nat.zero_le _

/-! ## Escaping -/

/-- Puts a backslash in front of every open bar, in one pass. -/
def escapeOpen : List Char → List Char
  | '\\' :: '|' :: cs => '\\' :: '|' :: escapeOpen cs
  | '|' :: cs => '\\' :: '|' :: escapeOpen cs
  | c :: cs => c :: escapeOpen cs
  | [] => []

theorem escapeOpen_cons {c : Char} {cs : List Char} (h : ∀ ds, c = '\\' → cs = '|' :: ds → False)
    (h' : c = '|' → False) : escapeOpen (c :: cs) = c :: escapeOpen cs := by
  rw [escapeOpen]
  · exact h
  · exact h'

theorem replaceChar_ne_bar (cs ds : List Char) : Text.replaceChar '|' ['\\', '|'] cs ≠ '|' :: ds := by
  cases cs with
  | nil => exact nofun
  | cons c cs =>
    rw [Text.replaceChar, List.flatMap_cons]
    by_cases h : c = '|'
    · rw [if_pos h]
      exact fun he => absurd (List.cons.inj he).1 (by decide)
    · rw [if_neg h]
      exact fun he => h (List.cons.inj he).1

theorem mergeEscapes_cons {c : Char} {cs : List Char} (h : c = '\\' → ∀ ds, cs ≠ '\\' :: '|' :: ds) :
    mergeEscapes (c :: cs) = c :: mergeEscapes cs := by
  rw [mergeEscapes]
  rintro ds hc hds
  exact h hc ds hds

/-- **One pass.** Escaping every bar and taking the second backslash back escapes the open bars. -/
theorem mergeEscapes_replaceChar (cs : List Char) :
    mergeEscapes (Text.replaceChar '|' ['\\', '|'] cs) = escapeOpen cs := by
  induction cs using escapeOpen.induct with
  | case1 cs ih => exact congrArg ('\\' :: '|' :: ·) ih
  | case2 cs ih =>
    show mergeEscapes ('\\' :: '|' :: Text.replaceChar '|' ['\\', '|'] cs) = _
    rw [mergeEscapes_cons (by simp), mergeEscapes_cons (by simp), ih, escapeOpen]
  | case3 c cs h h' ih =>
    have hr : Text.replaceChar '|' ['\\', '|'] (c :: cs) = c :: Text.replaceChar '|' ['\\', '|'] cs := by
      rw [Text.replaceChar, List.flatMap_cons, if_neg h']
      rfl
    rw [hr, mergeEscapes_cons, ih, escapeOpen_cons h h']
    -- a backslash and a bar can only come from a bar, and `c` is no backslash before a bar
    intro hc ds he
    cases cs with
    | nil => cases he
    | cons d cs =>
      rw [Text.replaceChar, List.flatMap_cons] at he
      by_cases hd : d = '|'
      · exact h cs hc (by rw [hd])
      · rw [if_neg hd] at he
        exact replaceChar_ne_bar _ _ (List.cons.inj he).2
  | case4 => rfl

theorem toList_escapeBars (s : String) : (escapeBars s).toList = escapeOpen s.toList := by
  rw [escapeBars, String.toList_ofList, mergeEscapes_replaceChar]

/-! ## Escaped texts have no open bars -/

theorem openBarsAfter_escapeOpen (cs : List Char) : ∀ escaped, openBarsAfter escaped (escapeOpen cs) = 0 := by
  induction cs using escapeOpen.induct with
  | case1 cs ih | case2 cs ih =>
    intro escaped
    rw [escapeOpen, openBarsAfter_escaped, ih]
  | case3 c cs h h' ih =>
    intro escaped
    rw [escapeOpen_cons h h', openBarsAfter, if_neg fun hc => h' hc.1, ih]
  | case4 => exact fun _ => rfl

theorem openBarsAfter_replaceChar (cs : List Char) :
    ∀ escaped, openBarsAfter escaped (Text.replaceChar '|' ['\\', '|'] cs) = 0 := by
  induction cs with
  | nil => exact fun _ => rfl
  | cons c cs ih =>
    intro escaped
    rw [Text.replaceChar, List.flatMap_cons]
    by_cases h : c = '|'
    · rw [if_pos h, List.cons_append, List.cons_append, List.nil_append, openBarsAfter_escaped]
      exact ih false
    · rw [if_neg h, List.cons_append, List.nil_append, openBarsAfter, if_neg fun hc => h hc.1, Nat.zero_add]
      exact ih _

/-! ## Texts without open bars -/

def Closed (s : String) : Prop :=
  openBars s = 0

theorem openBars_append_le (a b : String) : openBars (a ++ b) ≤ openBars a + openBars b := by
  rw [openBars, String.toList_append, openBarsAfter_append]
  exact Nat.add_le_add_left (openBarsAfter_le _ _) _

/-- What ends in neither a bar nor a backslash has nothing to do with what follows. -/
theorem openBarsAfter_gap {c : Char} (hb : c ≠ '|') (he : c ≠ '\\') (escaped : Bool) (cs ds : List Char) :
    openBarsAfter escaped (cs ++ c :: ds) = openBarsAfter escaped cs + openBarsAfter false ds := by
  rw [openBarsAfter_append, openBarsAfter, if_neg fun h => hb h.1, decide_eq_false he, Nat.zero_add]

namespace Closed

variable {a b : String}

theorem empty : Closed "" := rfl

theorem append (h : Closed a) (h' : Closed b) : Closed (a ++ b) := by
  have := openBars_append_le a b
  rw [h, h'] at this
  exact Nat.le_zero.1 this

theorem of_not_mem (h : '|' ∉ a.toList) : Closed a :=
  openBarsAfter_of_not_mem h false

theorem escapeBars (s : String) : Closed (escapeBars s) := by
  rw [Closed, openBars, toList_escapeBars, openBarsAfter_escapeOpen]

theorem escapeInCell (s : String) : Closed (escapeInCell true s) := by
  rw [Closed, openBars, Render.escapeInCell, if_pos rfl, Text.toList_escapeChar, openBarsAfter_replaceChar]

theorem join : ∀ {texts : List String}, (∀ s ∈ texts, Closed s) → Closed (String.join texts)
  | [], _ => empty
  | s :: texts, h => by
    rw [String.join_cons]
    exact (h s (List.mem_cons_self ..)).append (join fun t ht => h t (List.mem_cons_of_mem _ ht))

end Closed

/-! ## Trimming -/

theorem openBarsAfter_dropWhile {p : Char → Bool} (hp : ∀ c, p c = true → c ≠ '|' ∧ c ≠ '\\') (cs : List Char) :
    openBarsAfter false (cs.dropWhile p) = openBarsAfter false cs := by
  induction cs with
  | nil => rfl
  | cons c cs ih =>
    by_cases hc : p c = true
    · have h := openBarsAfter_gap (hp c hc).1 (hp c hc).2 false [] cs
      rw [List.dropWhile_cons_of_pos hc, ih]
      exact (Nat.zero_add _).symm.trans h.symm
    · rw [List.dropWhile_cons_of_neg hc]

theorem ne_of_isBlank {c : Char} (h : Text.isBlank c = true) : c ≠ '|' ∧ c ≠ '\\' := by
  refine ⟨?_, ?_⟩ <;> rintro rfl <;> exact absurd h (by decide)

theorem openBarsAfter_dropBlankEnd_le (cs : List Char) :
    openBarsAfter false (Text.dropBlankEnd cs) ≤ openBarsAfter false cs := by
  have h := congrArg (openBarsAfter false) (Text.dropBlankEnd_append_blankEnd cs)
  rw [openBarsAfter_append] at h
  omega

namespace Closed

variable {a : String}

theorem trimEnd (h : Closed a) : Closed (Text.trimEnd a) := by
  have hle := openBarsAfter_dropBlankEnd_le a.toList
  rw [← Text.toList_trimEnd, ← openBars, ← openBars, h] at hle
  exact Nat.le_zero.1 hle

theorem trim (h : Closed a) : Closed (Text.trim a) := by
  have hle := openBarsAfter_dropBlankEnd_le (Text.dropBlankStart a.toList)
  rw [← Text.toList_trim, ← openBars, Text.dropBlankStart, openBarsAfter_dropWhile fun _ => ne_of_isBlank,
    ← openBars, h] at hle
  exact Nat.le_zero.1 hle

theorem trimLineStart (h : Closed a) : Closed (Text.trimLineStart a) := by
  rw [Closed, openBars, Text.toList_trimLineStart, openBarsAfter_dropWhile]
  · exact h
  · intro c hc
    rw [eq_of_beq hc]
    decide

end Closed

/-! ## Joined texts -/

/-- The open bars of texts that do not touch. -/
def openBarsIn : List String → Nat
  | [] => 0
  | s :: texts => openBars s + openBarsIn texts

theorem openBarsIn_of_closed {texts : List String} (h : ∀ s ∈ texts, Closed s) : openBarsIn texts = 0 := by
  induction texts with
  | nil => rfl
  | cons s texts ih =>
    have hs : openBars s = 0 := h s (List.mem_cons_self ..)
    have rest := ih fun t ht => h t (List.mem_cons_of_mem _ ht)
    rw [openBarsIn, hs, rest]

theorem openBars_lines (separator : Char) (hb : separator ≠ '|') (he : separator ≠ '\\') : ∀ texts : List String,
    openBars (String.intercalate (String.singleton separator) texts) = openBarsIn texts
  | [] => rfl
  | [s] => by rw [String.intercalate_singleton, openBarsIn, openBarsIn, Nat.add_zero]
  | s :: t :: texts => by
    have rest := openBars_lines separator hb he (t :: texts)
    rw [String.intercalate_cons_cons, openBarsIn, ← rest, openBars, String.toList_append, String.toList_append,
      String.toList_singleton, List.append_assoc, List.singleton_append, openBarsAfter_gap hb he]
    rfl

end WikiPress.Render
