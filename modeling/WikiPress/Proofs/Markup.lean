import WikiPress.Proofs.Rule
import WikiPress.Proofs.Visible

/-!
# Markup

Whatever markup is put around a text, what is visible of the text stays in it.
-/

namespace WikiPress.Render

theorem Shows.of_blank {a b : String} (h : Text.isAllBlank a = true) : Shows a b := by
  rw [Shows, Text.visible_of_blank (List.all_eq_true.1 h)]
  exact List.nil_sublist _

theorem join_singleton (s : String) : String.join [s] = s := by
  rw [String.join_cons, String.join_nil, String.append_empty]

theorem shows_trim (s : String) : Shows s (Text.trim s) :=
  .of_eq (Text.visible_trim s).symm

theorem shows_trimEnd (s : String) : Shows s (Text.trimEnd s) :=
  .of_eq (Text.visible_trimEnd s).symm

theorem shows_trimLineStart (s : String) : Shows s (Text.trimLineStart s) :=
  .of_eq (Text.visible_trimLineStart s).symm

theorem shows_lines (lines : List String) : Shows (String.join lines) (String.intercalate "\n" lines) :=
  .of_eq (Text.visible_intercalate (by decide) lines).symm

theorem shows_paragraph (indent text : String) : Shows text (String.join (paragraphMarkup indent text)) := by
  unfold paragraphMarkup
  by_cases h : Text.isAllBlank text
  · exact .of_blank h
  · rw [if_neg h, join_singleton]
    exact ((Shows.refl text).after indent).before _

theorem shows_code (node : Node) : Shows node.plainText (String.join (codeMarkup node)) := by
  simp only [codeMarkup, String.join_cons]
  exact ((((Shows.refl node.plainText).after _).before _).after _).after _

theorem shows_task (scope : Scope) (indent : String) (node : Node) (text : String) :
    Shows text (taskMarkup scope indent node text) :=
  (shows_trim text).after _

/-- What a node is wrapped in keeps its text. -/
theorem shows_wrap {setting : Setting} {scope : Scope} {indent : String} {node : Node} {markup : String → List String}
    (h : Rule.ofNode setting scope indent node = .wrap markup) (text : String) :
    Shows text (String.join (markup text)) := by
  unfold Rule.ofNode at h
  split at h
  case h_1 =>
    cases h
    exact shows_paragraph indent text
  case h_2 =>
    cases h
    rw [join_singleton]
    exact ((shows_trim text).after _).before _
  case h_4 =>
    cases h
    rw [join_singleton]
    exact ((shows_trim text).after _).before _
  case h_17 =>
    cases h
    rw [join_singleton]
    exact shows_task scope indent node text
  case h_11 => split at h <;> cases h
  case h_18 | h_19 => rcases ofMacro_cases h with ⟨_, -, hr⟩ | ⟨-, hr⟩ <;> cases hr
  all_goals cases h

theorem shows_list (scope : Scope) (items : List String) :
    Shows (String.join items) (String.join (listMarkup scope items)) := by
  unfold listMarkup
  by_cases h : items.isEmpty = true
  · rw [List.isEmpty_iff.1 h]
    exact .empty _
  rw [if_neg h]
  simp only
  split
  · rw [join_singleton]
    exact ((shows_lines items).after _).before _
  · rw [join_singleton]
    exact (shows_lines items).after _

theorem shows_part (scope : Scope) (indent : String) (started : Bool) (kind : Node.Kind) (text : String) :
    Shows text (String.join (partLines scope indent started kind text)) := by
  unfold partLines
  by_cases hp : kind = .paragraph ∧ (!started) = true
  · rw [if_pos hp, join_singleton]
    exact (shows_trimEnd text).after _
  rw [if_neg hp]
  by_cases hl : kind.isList = true ∧ (!started) = true
  · rw [if_pos hl, join_singleton]
    exact (shows_trimLineStart text).after _
  rw [if_neg hl]
  by_cases hk : kind.isList = true
  · rw [if_pos hk, join_singleton]
    exact shows_trimLineStart text
  rw [if_neg hk]
  have ht : Shows text (Text.trimEnd (Text.trimLineStart text)) :=
    (shows_trimLineStart text).trans (shows_trimEnd _)
  simp only
  split
  · rename_i he
    rwa [he] at ht
  split
  · rw [join_singleton]
    exact ht.after _
  · rw [String.join_cons, join_singleton]
    exact (ht.after _).after _

theorem shows_cellLines (started afterParagraph : Bool) (parts : List (Node.Kind × String)) :
    Shows (String.join (parts.map Prod.snd)) (String.join (cellLines started afterParagraph parts)) := by
  induction parts generalizing started afterParagraph with
  | nil => exact .refl _
  | cons part parts ih =>
    obtain ⟨kind, text⟩ := part
    have own : Shows text (String.join (if Text.trim text = "" then [] else [Text.trim text])) := by
      have ht := shows_trim text
      split
      · rename_i he
        rwa [he] at ht
      · rwa [join_singleton]
    rw [List.map_cons, String.join_cons, cellLines, String.join_append, String.join_append]
    exact (own.after _).append (ih _ _)

theorem shows_cell (parts : List (Node.Kind × String)) :
    Shows (String.join (parts.map Prod.snd)) (Cell.ofParts parts).text := by
  have hl := (shows_cellLines false false parts).trans (shows_lines _)
  simp only [Cell.ofParts]
  split
  · exact hl
  · exact hl.trans (shows_escapeBars _)

end WikiPress.Render
