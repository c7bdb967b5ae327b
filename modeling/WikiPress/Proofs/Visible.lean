import WikiPress.Proofs.Bars
import WikiPress.Proofs.Wrapping
import WikiPress.Render.Rule

/-!
# Visible characters

The characters of a text that are not blank. Trimming and joining lines leave them alone, and markup is
put around them.
-/

namespace WikiPress

namespace Text

def visible (cs : List Char) : List Char :=
  cs.filter fun c => !isBlank c

@[simp] theorem visible_append (cs ds : List Char) : visible (cs ++ ds) = visible cs ++ visible ds :=
  List.filter_append ..

theorem visible_sublist (cs : List Char) : (visible cs).Sublist cs :=
  List.filter_sublist

theorem visible_of_blank {cs : List Char} (h : ∀ c ∈ cs, isBlank c = true) : visible cs = [] := by
  rw [visible, List.filter_eq_nil_iff]
  intro c hc
  rw [h c hc]
  decide

theorem visible_dropWhile {p : Char → Bool} (hp : ∀ c, p c = true → isBlank c = true) (cs : List Char) :
    visible (cs.dropWhile p) = visible cs := by
  induction cs with
  | nil => rfl
  | cons c cs ih =>
    by_cases hc : p c = true
    · rw [List.dropWhile_cons_of_pos hc, ih, visible, visible, List.filter_cons_of_neg]
      rw [hp c hc]
      decide
    · rw [List.dropWhile_cons_of_neg hc]

theorem visible_dropBlankEnd (cs : List Char) : visible (dropBlankEnd cs) = visible cs := by
  have hb : visible (blankEnd cs) = [] := visible_of_blank fun c hc => isBlank_of_mem_blankEnd hc
  have h := congrArg visible (dropBlankEnd_append_blankEnd cs)
  rwa [visible_append, hb, List.append_nil] at h

@[simp] theorem visible_trimEnd (s : String) : visible (trimEnd s).toList = visible s.toList := by
  rw [toList_trimEnd, visible_dropBlankEnd]

@[simp] theorem visible_trim (s : String) : visible (trim s).toList = visible s.toList := by
  rw [toList_trim, visible_dropBlankEnd, dropBlankStart, visible_dropWhile fun _ h => h]

@[simp] theorem visible_trimLineStart (s : String) : visible (trimLineStart s).toList = visible s.toList := by
  rw [toList_trimLineStart, visible_dropWhile fun c hc => ?_]
  rw [eq_of_beq hc]
  decide

theorem visible_intercalate {separator : String} (h : visible separator.toList = []) :
    ∀ texts : List String,
      visible (String.intercalate separator texts).toList = visible (String.join texts).toList
  | [] => by rw [String.intercalate_nil, String.join_nil]
  | [s] => by rw [String.intercalate_singleton, String.join_cons, String.join_nil, String.append_empty]
  | s :: t :: texts => by
    rw [String.intercalate_cons_cons, String.join_cons, String.toList_append, String.toList_append,
      String.toList_append, visible_append, visible_append, visible_append, h, List.append_nil,
      visible_intercalate h (t :: texts)]

end Text

namespace Render

/-- The visible characters of a text stand in its markup, in order. -/
def Shows (text markup : String) : Prop :=
  (Text.visible text.toList).Sublist (Text.visible markup.toList)

namespace Shows

variable {a b c d : String}

theorem of_eq (h : Text.visible a.toList = Text.visible b.toList) : Shows a b := by
  have hs : (Text.visible a.toList).Sublist (Text.visible a.toList) := List.Sublist.refl _
  unfold Shows
  exact h ▸ hs

theorem refl (a : String) : Shows a a := of_eq rfl

theorem trans (h : Shows a b) (h' : Shows b c) : Shows a c :=
  List.Sublist.trans h h'

theorem empty (a : String) : Shows "" a :=
  List.nil_sublist _

theorem append (h : Shows a b) (h' : Shows c d) : Shows (a ++ c) (b ++ d) := by
  simp only [Shows, String.toList_append, Text.visible_append]
  exact List.Sublist.append h h'

theorem after (before : String) (h : Shows a b) : Shows a (before ++ b) := by
  have := (empty before).append h
  rwa [String.empty_append] at this

theorem before (after : String) (h : Shows a b) : Shows a (b ++ after) := by
  have := h.append (empty after)
  rwa [String.append_empty] at this

theorem of_sublist (h : a.toList.Sublist b.toList) : Shows a b :=
  h.filter _

end Shows

/-! ## Escaping -/

theorem sublist_replaceChar (c : Char) : ∀ cs : List Char, cs.Sublist (Text.replaceChar c ['\\', c] cs)
  | [] => .slnil
  | d :: cs => by
    have rest := sublist_replaceChar c cs
    rw [Text.replaceChar, List.flatMap_cons]
    by_cases h : d = c
    · rw [if_pos h, h]
      exact (rest.cons_cons c).cons '\\'
    · rw [if_neg h]
      exact rest.cons_cons d

theorem sublist_escapeOpen (cs : List Char) : cs.Sublist (escapeOpen cs) := by
  induction cs using escapeOpen.induct with
  | case1 cs ih => exact (ih.cons_cons '|').cons_cons '\\'
  | case2 cs ih => exact (ih.cons_cons '|').cons '\\'
  | case3 c cs h h' ih =>
    rw [escapeOpen_cons h h']
    exact ih.cons_cons c
  | case4 => exact .slnil

theorem shows_escapeInCell (inCell : Bool) (s : String) : Shows s (escapeInCell inCell s) := by
  unfold escapeInCell
  split
  · exact .of_sublist (by rw [Text.toList_escapeChar]; exact sublist_replaceChar '|' _)
  · exact .refl s

theorem shows_escapeBars (s : String) : Shows s (escapeBars s) :=
  .of_sublist (by rw [toList_escapeBars]; exact sublist_escapeOpen _)

/-! ## Texts and links -/

theorem shows_wrapped (kind : Mark.Kind) (text : String) : Shows text (wrapped kind text) := by
  cases kind with
  | link | other => exact .refl text
  | strong | emphasis | code | strike | underline | subscript | superscript =>
    exact ((Shows.refl text).after _).before _

theorem shows_formatted (marks : List Mark) : ∀ text, Shows text (formatted marks text) := by
  induction marks with
  | nil => exact .refl
  | cons mark marks ih => exact fun text => (shows_wrapped mark.kind text).trans (ih _)

theorem shows_target {target : Link.Target} (h : ∀ key, target ≠ .issue key) (text : String) :
    Shows text (target.markup text) := by
  cases target with
  | anchor id => exact ((Shows.refl text).after _).before _
  | page path fragment => cases fragment <;> exact ((Shows.refl text).after _).before _
  | issue key => exact absurd rfl (h key)
  | external href => exact ((Shows.refl text).after _).before _

theorem shows_link {target : Link.Target} (h : ∀ key, target ≠ .issue key) (text : String) :
    Shows text (Link.markup target text) := by
  unfold Link.markup
  split
  · exact shows_target h text
  · exact shows_target h text
  · rename_i c inner _ hw
    rw [(Link.wrapper?_isWrapped hw).text_eq]
    exact ((Shows.refl _).append (shows_target h inner)).append (.refl _)

/-- Without a tracker no link is an issue. -/
theorem classify_ne_issue {options : Options} (h : options.trackerUrl = none) (anchors : List String)
    (href key : String) : Link.classify options anchors href ≠ .issue key := by
  have hk : Link.issueKey? options href = none := by rw [Link.issueKey?, h]
  unfold Link.classify
  cases Link.anchor? anchors href with
  | some id => exact nofun
  | none =>
    simp only [hk]
    split
    · exact nofun
    · split <;> exact nofun

theorem shows_linkedText {options : Options} (h : options.trackerUrl = none) (anchors : List String) (node : Node) :
    Shows node.ownText (linkedText options anchors node) := by
  have ht : Shows node.ownText (formatted node.marks (Text.trimEnd node.ownText)) :=
    (Shows.of_eq (Text.visible_trimEnd _).symm).trans (shows_formatted node.marks _)
  unfold linkedText
  cases href? node.marks with
  | none => exact ht
  | some href => exact ht.trans (shows_link (classify_ne_issue h anchors href) _)

/-- **Texts are shown.** Formatting, links and escaping keep what is visible of a text. -/
theorem shows_textMarkup {options : Options} (h : options.trackerUrl = none) (anchors : List String)
    (inCell : Bool) (node : Node) : Shows node.ownText (textMarkup options anchors inCell node) := by
  simp only [textMarkup]
  split
  · exact shows_escapeInCell inCell _
  · exact ((shows_linkedText h anchors node).before _).trans (shows_escapeInCell inCell _)

end Render

end WikiPress
