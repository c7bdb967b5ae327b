import WikiPress.Proofs.Row

/-!
# Plain cells

In a cell each text is escaped when it is rendered, and all of a simple cell once more. In a cell of paragraphs the two
come to one backslash before each bar of what is rendered outside of cells.
-/

namespace WikiPress.Text

/-! ## Escaping -/

section
variable {c : Char} {p : Char → Bool}

theorem escapeChar_append (c : Char) (a b : String) :
    escapeChar c (a ++ b) = escapeChar c a ++ escapeChar c b := by
  rw [← String.toList_inj]
  simp [replaceChar]

theorem escapeChar_of_not_mem {s : String} (h : c ∉ s.toList) : escapeChar c s = s := by
  rw [escapeChar, replaceChar_of_not_mem h, String.ofList_toList]

theorem escapeChar_eq_empty_iff {s : String} : escapeChar c s = "" ↔ s = "" := by
  rw [← String.toList_inj, ← String.toList_inj, toList_escapeChar, replaceChar]
  cases s.toList with
  | nil => simp
  | cons d cs =>
    rw [List.flatMap_cons]
    split <;> simp

theorem escapeChar_join (c : Char) (texts : List String) :
    String.join (texts.map (escapeChar c)) = escapeChar c (String.join texts) := by
  induction texts with
  | nil => rfl
  | cons s texts ih => rw [List.map_cons, String.join_cons, String.join_cons, ih, escapeChar_append]

theorem escapeChar_intercalate {separator : String} (h : c ∉ separator.toList) (texts : List String) :
    String.intercalate separator (texts.map (escapeChar c)) = escapeChar c (String.intercalate separator texts) := by
  induction texts with
  | nil => rfl
  | cons s texts ih =>
    cases texts with
    | nil => simp
    | cons t texts =>
      simp only [List.map_cons, String.intercalate_cons_cons, escapeChar_append, escapeChar_of_not_mem h]
      rw [← ih, List.map_cons]

/-- Dropping from a list stops at the same character, if what stands for a character begins alike. -/
theorem dropWhile_flatMap {f : Char → List Char} (hf : ∀ d, p d = true → f d = [d])
    (hf' : ∀ d, p d = false → ∃ e es, f d = e :: es ∧ p e = false) (cs : List Char) :
    (cs.flatMap f).dropWhile p = (cs.dropWhile p).flatMap f := by
  induction cs with
  | nil => rfl
  | cons d cs ih =>
    rw [List.flatMap_cons]
    cases hd : p d with
    | true => rw [hf d hd, List.singleton_append, List.dropWhile_cons_of_pos hd, List.dropWhile_cons_of_pos hd, ih]
    | false =>
      obtain ⟨e, es, he, hp⟩ := hf' d hd
      rw [List.dropWhile_cons_of_neg (by simp [hd]), List.flatMap_cons, he, List.cons_append,
        List.dropWhile_cons_of_neg (by simp [hp])]

end

theorem trim_escapeBar (s : String) : trim (escapeChar '|' s) = escapeChar '|' (trim s) := by
  have hblank (d : Char) (hd : isBlank d = true) : d ≠ '|' := (Render.ne_of_isBlank hd).1
  have hstart (cs : List Char) : dropBlankStart (replaceChar '|' ['\\', '|'] cs) =
      replaceChar '|' ['\\', '|'] (dropBlankStart cs) := by
    refine dropWhile_flatMap (fun d hd => if_neg (hblank d hd)) (fun d hd => ?_) cs
    by_cases hbar : d = '|'
    · exact ⟨'\\', ['|'], if_pos hbar, by decide⟩
    · exact ⟨d, [], if_neg hbar, hd⟩
  -- From the end, a bar comes before its backslash; neither is blank.
  have hend (cs : List Char) : dropBlankEnd (replaceChar '|' ['\\', '|'] cs) =
      replaceChar '|' ['\\', '|'] (dropBlankEnd cs) := by
    rw [dropBlankEnd, replaceChar, List.reverse_flatMap, dropWhile_flatMap, dropBlankEnd, replaceChar,
      List.flatMap_reverse]
    · intro d hd
      simp [hblank d hd]
    · intro d hd
      by_cases hbar : d = '|'
      · exact ⟨'|', ['\\'], by simp [hbar], by decide⟩
      · exact ⟨d, [], by simp [hbar], hd⟩
  rw [← String.toList_inj]
  simp only [toList_trim, toList_escapeChar, hstart, hend]

theorem isAllBlank_escapeBar (s : String) : isAllBlank (escapeChar '|' s) = isAllBlank s := by
  rw [isAllBlank, isAllBlank, toList_escapeChar, replaceChar, List.all_flatMap]
  refine congrArg s.toList.all (funext fun c => ?_)
  by_cases h : c = '|'
  · subst h
    decide
  · rw [if_neg h, List.all_cons, List.all_nil, Bool.and_true]

end WikiPress.Text

namespace WikiPress.Render

theorem escapeOpen_replaceChar (cs : List Char) :
    escapeOpen (Text.replaceChar '|' ['\\', '|'] cs) = Text.replaceChar '|' ['\\', '|'] cs := by
  induction cs with
  | nil => rfl
  | cons c cs ih =>
    by_cases h : c = '|'
    · subst h
      exact congrArg ('\\' :: '|' :: ·) ih
    · have hr : Text.replaceChar '|' ['\\', '|'] (c :: cs) = c :: Text.replaceChar '|' ['\\', '|'] cs := by
        rw [Text.replaceChar, List.flatMap_cons, if_neg h]
        rfl
      rw [hr, escapeOpen_cons (fun ds _ => replaceChar_ne_bar cs ds) h, ih]

/-- What is escaped already is not escaped again. -/
theorem escapeBars_escapeChar (s : String) : escapeBars (Text.escapeChar '|' s) = Text.escapeChar '|' s := by
  rw [← String.toList_inj, toList_escapeBars, Text.toList_escapeChar, escapeOpen_replaceChar]

/-! ## Inline nodes and paragraphs -/

/-- Texts, mentions, cards and line breaks. -/
def isInline (node : Node) : Bool :=
  match node.kind with
  | .text | .mention | .inlineCard | .hardBreak => true
  | _ => false

/-- An inline node, or a paragraph of inline nodes. -/
def isPlain (node : Node) : Bool :=
  isInline node || (node.kind = .paragraph && node.content.all isInline)

def Scope.outside (scope : Scope) : Scope :=
  { scope with inCell := false }

section
variable {setting : Setting} {scope : Scope} {place : Place} {indent : String} {node : Node}

theorem textMarkup_cell (options : Options) (anchors : List String) (node : Node) :
    textMarkup options anchors true node = Text.escapeChar '|' (textMarkup options anchors false node) := by
  unfold textMarkup
  by_cases h : Text.isAllBlank node.ownText = true
  · rw [if_pos h, if_pos h]
    rfl
  · rw [if_neg h, if_neg h]
    rfl

theorem renderText_cell (options : Options) (node : Node) :
    renderText options true node = Text.escapeChar '|' <$> renderText options false node := by
  unfold renderText
  simp only [textMarkup_cell]
  cases href? node.marks with
  | none => rfl
  | some href => by_cases h : Text.isAllBlank node.ownText = true <;> simp only [h] <;> rfl

theorem renderMention_cell (node : Node) :
    renderMention true node = Text.escapeChar '|' <$> renderMention false node := by
  unfold renderMention
  simp only
  split <;> rfl

theorem renderCard_cell (options : Options) (title? : String → Option String) (node : Node) :
    renderCard options title? true node = Text.escapeChar '|' <$> renderCard options title? false node := by
  unfold renderCard
  cases node.someText? "url" <;> rfl

/-- A visit in a cell that escapes what the visit outside of cells gives. -/
def Escapes (setting : Setting) (scope : Scope) (place : Place) (indent : String) (node : Node) : Prop :=
  visit .marked setting scope.cell place indent node =
    List.map (Text.escapeChar '|') <$> visit .marked setting scope.outside place indent node

theorem escapes_of_rule {rule : Rule} (hcell : Rule.ofNode setting scope.cell indent node = rule)
    (houtside : Rule.ofNode setting scope.outside indent node = rule)
    (h : visitBy .marked setting scope.cell place indent node rule =
      List.map (Text.escapeChar '|') <$> visitBy .marked setting scope.outside place indent node rule) :
    Escapes setting scope place indent node := by
  rw [Escapes, visit_def, visit_def, hcell, houtside, h, map_bind]
  refine congrArg (takeSkip place >>= ·) (funext fun skipped => ?_)
  cases skipped <;> rfl

theorem inline_escapes (h : isInline node = true) : Escapes setting scope place indent node := by
  have one {leaf : Leaf} {inside outside : RenderM String}
      (hrule : ∀ scope, Rule.ofNode setting scope indent node = .leaf leaf)
      (hinside : renderLeaf setting scope.cell node leaf = return [← inside])
      (houtside : renderLeaf setting scope.outside node leaf = return [← outside])
      (h : inside = Text.escapeChar '|' <$> outside) : Escapes setting scope place indent node := by
    refine escapes_of_rule (hrule _) (hrule _) ?_
    simp only [visitBy, hinside, houtside, h, map_eq_pure_bind, bind_assoc, pure_bind, List.map_cons, List.map_nil]
  unfold isInline at h
  cases hk : node.kind with
  | text => exact one (fun _ => by rw [Rule.ofNode, hk]) rfl rfl (renderText_cell setting.options node)
  | mention => exact one (fun _ => by rw [Rule.ofNode, hk]) rfl rfl (renderMention_cell node)
  | inlineCard =>
    exact one (fun _ => by rw [Rule.ofNode, hk]) rfl rfl (renderCard_cell setting.options setting.title? node)
  | hardBreak =>
    have hrule (scope : Scope) : Rule.ofNode setting scope indent node = .leaf (.fixed [hardBreakMarkup]) := by
      rw [Rule.ofNode, hk]
    exact escapes_of_rule (hrule _) (hrule _) rfl
  | _ => simp [hk] at h

theorem all_escape {nodes : List Node} (h : ∀ node ∈ nodes, isInline node = true) (i : Nat) :
    visitAll .marked setting scope.cell place indent i nodes =
      List.map (Text.escapeChar '|') <$> visitAll .marked setting scope.outside place indent i nodes := by
  induction nodes generalizing i with
  | nil => rfl
  | cons node nodes ih =>
    obtain ⟨hn, hr⟩ := List.forall_mem_cons.1 h
    have first : Escapes setting scope (i :: place) indent node := inline_escapes hn
    rw [Escapes] at first
    simp only [visitAll, first, ih hr (i + 1), map_eq_pure_bind, bind_assoc, pure_bind, List.map_append]

theorem paragraphMarkup_escapeChar (text : String) :
    paragraphMarkup "" (Text.escapeChar '|' text) = (paragraphMarkup "" text).map (Text.escapeChar '|') := by
  have hend : Text.escapeChar '|' "\n\n" = "\n\n" := Text.escapeChar_of_not_mem (by decide)
  unfold paragraphMarkup
  rw [Text.isAllBlank_escapeBar]
  split
  · rfl
  · simp only [String.empty_append, List.map_cons, List.map_nil, Text.escapeChar_append, hend]

theorem plain_escapes (h : isPlain node = true) : Escapes setting scope place "" node := by
  rcases Bool.or_eq_true_iff.1 h with h | h
  · exact inline_escapes h
  · obtain ⟨hk, hc⟩ := Bool.and_eq_true_iff.1 h
    have hrule (scope : Scope) : Rule.ofNode setting scope "" node = .wrap (paragraphMarkup "") := by
      rw [Rule.ofNode, of_decide_eq_true hk]
    refine escapes_of_rule (hrule _) (hrule _) ?_
    simp only [visitBy, all_escape (List.all_eq_true.1 hc), map_eq_pure_bind, bind_assoc, pure_bind,
      Text.escapeChar_join, paragraphMarkup_escapeChar]

theorem parts_escape {nodes : List Node} (h : ∀ node ∈ nodes, isPlain node = true) (i : Nat) :
    visitParts .marked setting scope.cell place i nodes =
      List.map (fun part => (part.1, Text.escapeChar '|' part.2)) <$>
        visitParts .marked setting scope.outside place i nodes := by
  induction nodes generalizing i with
  | nil => rfl
  | cons node nodes ih =>
    obtain ⟨hn, hr⟩ := List.forall_mem_cons.1 h
    have first : Escapes setting scope (i :: place) "" node := plain_escapes hn
    rw [Escapes] at first
    simp only [visitParts, first, ih hr (i + 1), map_eq_pure_bind, bind_assoc, pure_bind, List.map_cons,
      Text.escapeChar_join]

end

/-! ## Simple cells -/

/-- The lines of texts: a text that is blank has none. -/
def linesOf (texts : List String) : List String :=
  (texts.map Text.trim).filter (· ≠ "")

theorem cellLines_simple (started afterParagraph : Bool) {parts : List (Node.Kind × String)}
    (h : parts.any (fun part => isComplex part.1) = false) :
    cellLines started afterParagraph parts = linesOf (parts.map Prod.snd) := by
  induction parts generalizing started afterParagraph with
  | nil => rfl
  | cons part parts ih =>
    obtain ⟨hp, hr⟩ := Bool.or_eq_false_iff.1 h
    rw [cellLines, ih _ _ hr]
    by_cases ht : Text.trim part.2 = "" <;> simp [linesOf, hp, ht]

theorem ofParts_simple {parts : List (Node.Kind × String)} (h : parts.any (fun part => isComplex part.1) = false) :
    let text := escapeBars (String.intercalate "\n" (linesOf (parts.map Prod.snd)))
    Cell.ofParts parts = ⟨text, text.toList.contains '\n'⟩ := by
  simp [Cell.ofParts, cellLines_simple false false h, h]

theorem linesOf_escapeChar (texts : List String) :
    linesOf (texts.map (Text.escapeChar '|')) = (linesOf texts).map (Text.escapeChar '|') := by
  have htrim : Text.trim ∘ Text.escapeChar '|' = Text.escapeChar '|' ∘ Text.trim := funext Text.trim_escapeBar
  have hempty : (fun s => decide (s ≠ "")) ∘ Text.escapeChar '|' = fun s => decide (s ≠ "") :=
    funext fun s => by simp [Text.escapeChar_eq_empty_iff]
  rw [linesOf, List.map_map, htrim, ← List.map_map, List.filter_map, hempty, linesOf]

theorem kind_of_plain {node : Node} (h : isPlain node = true) : isComplex node.kind = false := by
  rcases Bool.or_eq_true_iff.1 h with h | h
  · unfold isInline at h
    cases hk : node.kind <;> simp [hk] at h ⊢ <;> rfl
  · rw [of_decide_eq_true (Bool.and_eq_true_iff.1 h).1]
    rfl

/-- **Each bar is escaped once.** The text of a cell of paragraphs is what is rendered for them outside of cells, with
one backslash before each of its bars, and the cell is complex exactly if that has several lines. -/
theorem cell_of_plain (node : Node) (place : Place) (context : Context)
    (h : ∀ child ∈ node.content, isPlain child = true) :
    let cell := ((Walk.renderCell place node).run context).1
    let outside : Context := { context with scope := context.scope.outside }
    let texts := ((Walk.renderParts place 0 node.content).run outside).1.map Prod.snd
    let text := Text.escapeChar '|' (String.intercalate "\n" (linesOf texts))
    cell.text = text ∧ (cell.complex = true ↔ '\n' ∈ text.toList) := by
  intro cell outside texts text
  let parts := ((visitParts .marked context.setting context.scope.outside place 0 node.content).run context.memory).1
  let escaped := parts.map fun part => (part.1, Text.escapeChar '|' part.2)
  have htexts : texts = parts.map Prod.snd := by
    simp only [texts, Walk.renderParts_eq]
    rfl
  have hescaped : escaped.map Prod.snd = texts.map (Text.escapeChar '|') := by
    rw [htexts, List.map_map, List.map_map]
    rfl
  have hsimple : escaped.any (fun part => isComplex part.1) = false := by
    have hkinds : parts.any (fun part => isComplex part.1) = node.content.any fun child => isComplex child.kind :=
      visitParts_any place node.content 0 context.memory
    have hnone : (node.content.any fun child => isComplex child.kind) = false :=
      List.any_eq_false.2 fun child hc => Bool.eq_false_iff.1 (kind_of_plain (h child hc))
    rw [List.any_map]
    exact hkinds.trans hnone
  have hcell : cell = Cell.ofParts escaped := by
    simp only [cell, Walk.renderCell_eq, visitCell_def, parts_escape h]
    rfl
  have hline : '|' ∉ "\n".toList := by decide
  rw [ofParts_simple hsimple, hescaped, linesOf_escapeChar, Text.escapeChar_intercalate hline,
    escapeBars_escapeChar] at hcell
  simp only [hcell, text, List.contains_iff_mem, true_and]

/-- A bar behind a backslash in a strong text, one in the name of a user, and one in a link. -/
theorem cell_of_plain_bars :
    let link : Mark := { type := "link", attrs := [("href", .string "a|b")] }
    let text (s : String) (marks : List Mark) : Node := { type := "text", marks, text := some s }
    let mention : Node := { type := "mention", attrs := [("text", .string "@x|y")] }
    let first : Node := { type := "paragraph", content := [text "a\\|b " [{ type := "strong" }], mention] }
    let second : Node := { type := "paragraph", content := [text "|" [link]] }
    let node : Node := { type := "tableCell", content := [first, second] }
    (∀ child ∈ node.content, isPlain child = true) ∧
      ((Walk.renderCell [] node).run {}).1.text = "*a\\\\|b* @x\\|y\nlink:a\\|b[\\|]" := by
  intro link text mention first second node
  have h : ∀ child ∈ node.content, isPlain child = true := by decide
  refine ⟨h, ?_⟩
  rw [(cell_of_plain node [] {} h).1]
  decide +kernel

end WikiPress.Render
