import WikiPress.Proofs.Visible

/-!
# Bare bars

A bar is bare when no backslash stands right before it. The two passes of escaping put a backslash before each bare
bar and change nothing else, and so the texts without bare bars are the ones that they leave alone.
-/

namespace WikiPress.Render

/-- The characters of a list, each with the one before it; `previous` is what comes before the list. -/
def withPrevious (previous : Option Char) (cs : List Char) : List (Option Char × Char) :=
  (previous :: cs.map some).zip cs

def IsBare (previous : Option Char) (c : Char) : Prop :=
  c = '|' ∧ previous ≠ some '\\'

instance (previous : Option Char) (c : Char) : Decidable (IsBare previous c) :=
  inferInstanceAs (Decidable (_ ∧ _))

/-- A list with a backslash put in before each bare bar. -/
def escapeBare (previous : Option Char) (cs : List Char) : List Char :=
  (withPrevious previous cs).flatMap fun (previous, c) => if IsBare previous c then ['\\', c] else [c]

def EveryBarEscaped (s : String) : Prop :=
  ∀ before after, s.toList = before ++ '|' :: after → before.getLast? = some '\\'

section
variable {previous : Option Char} {c : Char} {cs : List Char}

theorem withPrevious_cons (previous : Option Char) (c : Char) (cs : List Char) :
    withPrevious previous (c :: cs) = (previous, c) :: withPrevious (some c) cs := rfl

theorem getLast?_cons_or (before : List Char) (first : Option Char) :
    (c :: before).getLast?.or first = before.getLast?.or (some c) := by
  rw [List.getLast?_cons, Option.or_some, Option.some_or]

theorem mem_withPrevious {first : Option Char} : (previous, c) ∈ withPrevious first cs ↔
    ∃ before after, cs = before ++ c :: after ∧ previous = before.getLast?.or first := by
  induction cs generalizing first with
  | nil => simp [withPrevious]
  | cons d cs ih =>
    rw [withPrevious_cons, List.mem_cons, ih]
    constructor
    · rintro (h | ⟨before, after, rfl, rfl⟩)
      · cases h
        exact ⟨[], cs, rfl, rfl⟩
      · exact ⟨d :: before, after, rfl, (getLast?_cons_or before first).symm⟩
    · rintro ⟨before, after, hcs, rfl⟩
      cases before with
      | nil =>
        cases hcs
        exact .inl rfl
      | cons e before =>
        cases hcs
        exact .inr ⟨before, after, rfl, getLast?_cons_or before first⟩

/-! ## One backslash before each bare bar -/

theorem escapeBare_cons (previous : Option Char) (c : Char) (cs : List Char) : escapeBare previous (c :: cs) =
    (if IsBare previous c then ['\\', c] else [c]) ++ escapeBare (some c) cs := rfl

theorem escapeBare_of_not_isBare (h : ¬IsBare previous c) (cs : List Char) :
    escapeBare previous (c :: cs) = c :: escapeBare (some c) cs := by
  rw [escapeBare_cons, if_neg h, List.singleton_append]

/-- What comes before a list decides on its first character only. -/
theorem escapeBare_congr (h : ∀ ds, cs ≠ '|' :: ds) (previous other : Option Char) :
    escapeBare previous cs = escapeBare other cs := by
  cases cs with
  | nil => rfl
  | cons c cs =>
    have hc : c ≠ '|' := fun hc => h cs (by rw [hc])
    rw [escapeBare_of_not_isBare fun hb => hc hb.1, escapeBare_of_not_isBare fun hb => hc hb.1]

theorem escapeOpen_eq_escapeBare (h : previous ≠ some '\\') : escapeOpen cs = escapeBare previous cs := by
  induction cs using escapeOpen.induct generalizing previous with
  | case1 cs ih =>
    have hbar : ¬IsBare (some '\\') '|' := fun hb => hb.2 rfl
    rw [escapeOpen, escapeBare_of_not_isBare (by simp [IsBare]), escapeBare_of_not_isBare hbar,
      ih (by decide : some '|' ≠ some '\\')]
  | case2 cs ih =>
    have hbar : IsBare previous '|' := ⟨rfl, h⟩
    rw [escapeOpen, escapeBare_cons, if_pos hbar, ih (by decide : some '|' ≠ some '\\')]
    rfl
  | case3 c cs hbackslash hbar ih =>
    rw [escapeOpen_cons hbackslash hbar, escapeBare_of_not_isBare fun hb => hbar hb.1]
    refine congrArg (c :: ·) ?_
    by_cases hc : c = '\\'
    · -- a backslash that no bar follows might as well be absent
      have hnone : (none : Option Char) ≠ some '\\' := by decide
      exact (ih hnone).trans (escapeBare_congr (fun ds hds => hbackslash ds hc hds) _ _)
    · exact ih fun hs => hc (Option.some.inj hs)
  | case4 => rfl

/-! ## Texts without bare bars -/

theorem openBarsAfter_eq_zero_iff : openBarsAfter (previous = some '\\') cs = 0 ↔
    ∀ pair ∈ withPrevious previous cs, ¬IsBare pair.1 pair.2 := by
  induction cs generalizing previous with
  | nil => simp [openBarsAfter, withPrevious]
  | cons c cs ih =>
    rw [withPrevious_cons, List.forall_mem_cons, ← ih, openBarsAfter, Nat.add_eq_zero_iff]
    simp [IsBare]

theorem escapeBare_of_forall (h : ∀ pair ∈ withPrevious previous cs, ¬IsBare pair.1 pair.2) :
    escapeBare previous cs = cs := by
  induction cs generalizing previous with
  | nil => rfl
  | cons c cs ih =>
    obtain ⟨hc, hcs⟩ := List.forall_mem_cons.1 h
    rw [escapeBare_of_not_isBare hc, ih hcs]

end

section
variable (s : String)

theorem closed_iff_forall : Closed s ↔ ∀ pair ∈ withPrevious none s.toList, ¬IsBare pair.1 pair.2 :=
  @openBarsAfter_eq_zero_iff none _

theorem closed_iff_everyBarEscaped : Closed s ↔ EveryBarEscaped s := by
  rw [closed_iff_forall]
  constructor
  · intro h before after hs
    have hbare := h (before.getLast?, '|') (mem_withPrevious.2 ⟨before, after, hs, Option.or_none.symm⟩)
    exact Decidable.not_not.1 fun hne => hbare ⟨rfl, hne⟩
  · rintro h ⟨previous, c⟩ hmem ⟨rfl, hne⟩
    obtain ⟨before, after, hs, rfl⟩ := mem_withPrevious.1 hmem
    exact hne (by rw [Option.or_none, h before after hs])

theorem toList_escapeBars_eq_escapeBare : (escapeBars s).toList = escapeBare none s.toList := by
  rw [toList_escapeBars, escapeOpen_eq_escapeBare (by decide : (none : Option Char) ≠ some '\\')]

theorem escapeBars_eq_self_iff : escapeBars s = s ↔ Closed s := by
  constructor
  · intro h
    rw [← h]
    exact Closed.escapeBars s
  · intro h
    rw [← String.toList_inj, toList_escapeBars_eq_escapeBare, escapeBare_of_forall ((closed_iff_forall s).1 h)]

/-- **Escaping is a normal form.** The two passes put one backslash before each bare bar and nothing else. So they
leave what they made alone, and all other texts in which every bar is escaped, and take no character away. -/
theorem escapeBars_normalises :
    (escapeBars s).toList = escapeBare none s.toList ∧ escapeBars (escapeBars s) = escapeBars s ∧
      (escapeBars s = s ↔ EveryBarEscaped s) ∧ s.toList.Sublist (escapeBars s).toList := by
  refine ⟨toList_escapeBars_eq_escapeBare s, (escapeBars_eq_self_iff _).2 (Closed.escapeBars s), ?_, ?_⟩
  · rw [escapeBars_eq_self_iff, closed_iff_everyBarEscaped]
  · rw [toList_escapeBars]
    exact sublist_escapeOpen s.toList

/-- Of two backslashes before a bar none is taken back. -/
example : escapeBars "\\\\||" = "\\\\|\\|" := by
  decide

end

end WikiPress.Render
