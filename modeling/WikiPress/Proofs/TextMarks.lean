import WikiPress.Proofs.Leaf
import WikiPress.Proofs.Trimming
import WikiPress.Proofs.Wrapping
import WikiPress.Render

/-!
# Texts with marks

The markup of a text is put together from the outside in: blanks at the end, a link, the signs of the formatting marks,
and the text itself. It depends on the formatting marks in their order and on the last link, and on nothing else of the
marks.
-/

namespace WikiPress

/-! ## Signs of marks -/

namespace Mark.Kind

def isFormatting : Kind → Bool
  | .link | .other => false
  | _ => true

/-- What stands before a text with a mark. -/
def opening : Kind → String
  | .strong => "*"
  | .emphasis => "_"
  | .code => "\x60"
  | .strike => "[.line-through]#"
  | .underline => "[.underline]#"
  | .subscript => "~"
  | .superscript => "^"
  | .link | .other => ""

/-- What stands behind a text with a mark. -/
def closing : Kind → String
  | .strong => "*"
  | .emphasis => "_"
  | .code => "\x60"
  | .strike | .underline => "#"
  | .subscript => "~"
  | .superscript => "^"
  | .link | .other => ""

end Mark.Kind

namespace Render

theorem wrapped_eq (kind : Mark.Kind) (text : String) : wrapped kind text = kind.opening ++ text ++ kind.closing := by
  cases kind with
  | link | other => exact (String.append_empty.trans String.empty_append).symm
  | _ => rfl

/-- A text in formatting marks, the first of them innermost. -/
def inMarks (marks : List Mark) (text : String) : String :=
  let formatting := marks.filter (·.kind.isFormatting)
  String.join (formatting.reverse.map (·.kind.opening)) ++ text ++ String.join (formatting.map (·.kind.closing))

theorem inMarks_cons (mark : Mark) (marks : List Mark) (text : String) :
    inMarks (mark :: marks) text = inMarks marks (wrapped mark.kind text) := by
  cases hkind : mark.kind.isFormatting with
  | true =>
    have hfilter : (mark :: marks).filter (·.kind.isFormatting) = mark :: marks.filter (·.kind.isFormatting) :=
      List.filter_cons_of_pos hkind
    simp only [inMarks, hfilter, List.reverse_cons, List.map_append, List.map_cons, List.map_nil,
      String.join_append, String.join_cons, String.join_nil, String.append_empty, wrapped_eq, String.append_assoc]
  | false =>
    have hplain : wrapped mark.kind text = text := by
      cases h : mark.kind <;> rw [h] at hkind <;> first | rfl | cases hkind
    rw [hplain, inMarks, inMarks, List.filter_cons_of_neg (Bool.not_eq_true _ ▸ hkind)]

theorem formatted_eq (marks : List Mark) (text : String) : formatted marks text = inMarks marks text := by
  induction marks generalizing text with
  | nil => simp [formatted, inMarks]
  | cons mark marks ih => rw [inMarks_cons, ← ih, formatted, List.foldl_cons, formatted]

/-! ## The last link -/

/-- The last link of a text has this URL. -/
def LastLink (marks : List Mark) (href : String) : Prop :=
  ∃ before mark after, marks = before ++ mark :: after ∧ mark.kind = .link ∧ (∀ m ∈ after, m.kind ≠ .link) ∧
    mark.attrs.lookup "href" = some (.string href)

theorem getLast?_filter_eq_some_iff {α : Type} {p : α → Bool} {list : List α} {a : α} :
    (list.filter p).getLast? = some a ↔
      ∃ before after, list = before ++ a :: after ∧ p a = true ∧ ∀ b ∈ after, p b = false := by
  rw [List.getLast?_eq_head?_reverse, ← List.filter_reverse, List.head?_filter, List.find?_eq_some_iff_append]
  constructor
  · rintro ⟨ha, after, before, hlist, hafter⟩
    refine ⟨before.reverse, after.reverse, ?_, ha, fun b hb => ?_⟩
    · rw [← List.reverse_reverse list, hlist, List.reverse_append, List.reverse_cons, List.append_assoc]
      rfl
    · simpa using hafter b (List.mem_reverse.1 hb)
  · rintro ⟨before, after, rfl, ha, hafter⟩
    refine ⟨ha, after.reverse, before.reverse, ?_, fun b hb => ?_⟩
    · rw [List.reverse_append, List.reverse_cons, List.append_assoc]
      rfl
    · simpa using hafter b (List.mem_reverse.1 hb)

theorem href?_eq_some_iff {marks : List Mark} {href : String} : href? marks = some href ↔ LastLink marks href := by
  simp only [href?, Option.bind_eq_some_iff, getLast?_filter_eq_some_iff, decide_eq_true_eq, decide_eq_false_iff_not,
    Mark.href?, Mark.text?, Json.Fields.text?_eq_some, LastLink]
  constructor
  · rintro ⟨mark, ⟨before, after, hmarks, hkind, hafter⟩, hhref⟩
    exact ⟨before, mark, after, hmarks, hkind, hafter, hhref⟩
  · rintro ⟨before, mark, after, hmarks, hkind, hafter, hhref⟩
    exact ⟨mark, ⟨before, after, hmarks, hkind, hafter⟩, hhref⟩

/-! ## The markup of a text -/

/-- The markup of a text node, where these anchors were met. -/
inductive IsTextMarkup (options : Options) (anchors : List String) (inCell : Bool) (node : Node) : String → Prop
  | blank : (∀ c ∈ node.ownText.toList, Text.isBlank c = true) →
      IsTextMarkup options anchors inCell node (escapeInCell inCell node.ownText)
  | plain {core blanks : String} : Text.EndsWithBlanks node.ownText core blanks → (∀ href, ¬ LastLink node.marks href) →
      IsTextMarkup options anchors inCell node (escapeInCell inCell (inMarks node.marks core ++ blanks))
  | linked {core blanks href text : String} : Text.EndsWithBlanks node.ownText core blanks → LastLink node.marks href →
      Link.Linked (Link.classify options anchors href) (inMarks node.marks core) text →
      IsTextMarkup options anchors inCell node (escapeInCell inCell (text ++ blanks))

section
variable {options : Options} {anchors : List String} {inCell : Bool} {node : Node}

theorem textMarkup_of_blanks {core blanks : String} (h : Text.EndsWithBlanks node.ownText core blanks) :
    textMarkup options anchors inCell node = escapeInCell inCell (linkedText options anchors node ++ blanks) := by
  rw [textMarkup, h.isAllBlank_eq, h.blankEnd_eq]
  rfl

theorem IsTextMarkup.textMarkup_eq {out : String} (h : IsTextMarkup options anchors inCell node out) :
    textMarkup options anchors inCell node = out := by
  cases h with
  | blank hblank =>
    have hall : Text.isAllBlank node.ownText = true := List.all_eq_true.2 hblank
    rw [textMarkup, hall]
    rfl
  | plain hends hnone =>
    have hhref : href? node.marks = none :=
      Option.eq_none_iff_forall_ne_some.2 fun href hhref => hnone href (href?_eq_some_iff.1 hhref)
    rw [textMarkup_of_blanks hends, linkedText, hhref, formatted_eq, hends.trimEnd_eq]
  | linked hends hlink htext =>
    rw [textMarkup_of_blanks hends, linkedText, href?_eq_some_iff.2 hlink, formatted_eq, hends.trimEnd_eq]
    dsimp only
    rw [htext.markup_eq]

theorem exists_isTextMarkup (options : Options) (anchors : List String) (inCell : Bool) (node : Node) :
    ∃ out, IsTextMarkup options anchors inCell node out := by
  cases hall : Text.isAllBlank node.ownText with
  | true => exact ⟨_, .blank (List.all_eq_true.1 hall)⟩
  | false =>
    have hends := Text.endsWithBlanks hall
    by_cases hlink : ∃ href, LastLink node.marks href
    · obtain ⟨href, hlink⟩ := hlink
      obtain ⟨text, htext⟩ := Link.exists_linked (Link.classify options anchors href) _
      exact ⟨_, .linked hends hlink htext⟩
    · exact ⟨_, .plain hends (not_exists.1 hlink)⟩

theorem textMarkup_eq_iff {out : String} :
    textMarkup options anchors inCell node = out ↔ IsTextMarkup options anchors inCell node out := by
  refine ⟨fun h => ?_, IsTextMarkup.textMarkup_eq⟩
  obtain ⟨other, hother⟩ := exists_isTextMarkup options anchors inCell node
  rwa [← h, hother.textMarkup_eq]

end

/-! ## Marks in other places -/

/-- The same formatting marks in order and the same links in order, with any unknown marks. -/
structure SameMarks (marks marks' : List Mark) : Prop where
  formatting : marks.filter (·.kind.isFormatting) = marks'.filter (·.kind.isFormatting)
  links : marks.filter (·.kind = .link) = marks'.filter (·.kind = .link)

theorem SameMarks.renderText_eq {node : Node} {marks : List Mark} (h : SameMarks node.marks marks) (options : Options)
    (inCell : Bool) : renderText options inCell { node with marks } = renderText options inCell node := by
  have hhref : href? marks = href? node.marks := by rw [href?, href?, h.links]
  have hformatted (text : String) : formatted marks text = formatted node.marks text := by
    rw [formatted_eq, formatted_eq, inMarks, inMarks, h.formatting]
  have hlinked (anchors : List String) :
      linkedText options anchors { node with marks } = linkedText options anchors node := by
    simp only [linkedText, hhref, hformatted]
    rfl
  have hmarkup (anchors : List String) :
      textMarkup options anchors inCell { node with marks } = textMarkup options anchors inCell node := by
    simp only [textMarkup, hlinked]
    rfl
  simp only [renderText, hhref, hmarkup]
  rfl

/-- **Texts with marks.** Only the formatting marks in their order and the links in theirs count, and the markup is the
one that they give. -/
theorem renderInline_text {node : Node} (hkind : node.kind = .text) (setting : Setting) (scope : Scope) (place : Place)
    (memory : Memory) :
    (∀ marks, SameMarks node.marks marks → (renderInline setting scope place { node with marks }).run memory =
        (renderInline setting scope place node).run memory) ∧
      ∀ out, ((renderInline setting scope place node).run memory).1 = out ↔
        IsTextMarkup setting.options memory.anchors scope.inCell node out := by
  have hrender : renderInline setting scope place node = renderText setting.options scope.inCell node := if_pos hkind
  refine ⟨fun marks hmarks => ?_, fun out => ?_⟩
  · have hrender' : renderInline setting scope place { node with marks } =
        renderText setting.options scope.inCell { node with marks } := if_pos hkind
    rw [hrender, hrender', hmarks.renderText_eq]
  · rw [hrender, run_renderText, textMarkup_eq_iff]

/-- A linked text in a cell, with a mark that is unknown. -/
def markedText : Node :=
  { type := "text", text := some "a|b ",
    marks := [{ type := "strong" }, { type := "textColor" },
      { type := "link", attrs := [("href", .string "https://example.com")] }, { type := "em" }] }

theorem renderInline_text_marked :
    ((renderInline {} { inCell := true } [] markedText).run {}).1 = "_link:https://example.com[*a\\|b*]_ " ∧
      (renderInline {} { inCell := true } [] { markedText with
          marks := [{ type := "link", attrs := [("href", .string "https://example.com")] }, { type := "strong" },
            { type := "em" }] }).run {} =
        (renderInline {} { inCell := true } [] markedText).run {} := by
  obtain ⟨hmarks, hmarkup⟩ := renderInline_text (show markedText.kind = .text from rfl) {} { inCell := true } [] {}
  have hends : Text.EndsWithBlanks markedText.ownText "a|b" " " :=
    ⟨by decide, ⟨'b', by decide, by decide⟩, List.all_eq_true.1 (by decide)⟩
  have hlink : LastLink markedText.marks "https://example.com" :=
    ⟨markedText.marks.take 2, _, markedText.marks.drop 3, rfl, by decide, by decide, by decide⟩
  have hwrapped : Link.IsWrapped '_' "*a|b*" (inMarks markedText.marks "a|b") :=
    ⟨.inr rfl, by decide, by decide, by decide⟩
  have hother : ∀ key, Link.classify {} [] "https://example.com" ≠ .issue key := by
    have hclass : Link.classify {} [] "https://example.com" = .external "https://example.com" := by decide +kernel
    rw [hclass]
    exact nofun
  have hmarked := (hmarkup _).2 (.linked hends hlink (.inside hother hwrapped))
  refine ⟨hmarked.trans ?_, hmarks _ ⟨by decide, by decide⟩⟩
  decide +kernel

end Render

end WikiPress
