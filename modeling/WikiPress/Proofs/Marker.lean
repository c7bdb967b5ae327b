import WikiPress.Proofs.Trimming
import WikiPress.Proofs.Walk

/-!
# Markers

An item is written with its marker in front, whatever is in it and in whatever order. Nothing is written for an item
exactly if it has neither paragraphs nor lists and nothing in it can be seen.
-/

namespace WikiPress.Render

/-- A text begins with a marker, and then there is a blank, a line end or nothing. -/
def BeginsWith (marker text : String) : Prop :=
  ∃ rest, text = marker ++ rest ∧ (rest = "" ∨ (∃ s, rest = " " ++ s) ∨ ∃ s, rest = "\n" ++ s)

theorem BeginsWith.ne_empty {margin marker text : String} (h : BeginsWith (margin ++ marker) text)
    (hm : marker ≠ "") : text ≠ "" := by
  obtain ⟨rest, rfl, -⟩ := h
  simp [hm]

/-- The first of several lines begins with a marker. -/
def FirstBeginsWith (marker : String) (lines : List String) : Prop :=
  ∃ line more, lines = line :: more ∧ BeginsWith marker line

namespace FirstBeginsWith

variable {marker : String} {lines : List String}

theorem append (h : FirstBeginsWith marker lines) (more : List String) : FirstBeginsWith marker (lines ++ more) := by
  obtain ⟨line, rest, rfl, hline⟩ := h
  exact ⟨line, rest ++ more, rfl, hline⟩

theorem itemMarkup (h : FirstBeginsWith marker lines) : BeginsWith marker (itemMarkup lines) := by
  obtain ⟨line, more, rfl, rest, rfl, hrest⟩ := h
  cases more with
  | nil => exact ⟨rest, String.intercalate_singleton, hrest⟩
  | cons next more =>
    refine ⟨rest ++ ("\n" ++ String.intercalate "\n" (next :: more)), ?_, ?_⟩
    · rw [Render.itemMarkup, String.intercalate_cons_cons]
      simp only [String.append_assoc]
    · rcases hrest with rfl | ⟨s, rfl⟩ | ⟨s, rfl⟩
      · exact Or.inr (Or.inr ⟨_, String.empty_append⟩)
      · exact Or.inr (Or.inl ⟨_, String.append_assoc⟩)
      · exact Or.inr (Or.inr ⟨_, String.append_assoc⟩)

end FirstBeginsWith

/-! ## Parts of an item -/

/-- Is a part of an item written even if nothing in it can be seen? -/
def hasLine (kind : Node.Kind) : Bool :=
  kind = .paragraph || kind.isList

section
variable (scope : Scope) (indent text : String) {kind : Node.Kind}

theorem partLines_of_hasLine (h : hasLine kind = true) :
    FirstBeginsWith (bareMarker scope indent) (partLines scope indent false kind text) := by
  unfold partLines
  by_cases hp : kind = .paragraph
  · rw [if_pos ⟨hp, rfl⟩]
    exact ⟨_, [], rfl, " " ++ Text.trimEnd text, String.append_assoc, Or.inr (Or.inl ⟨_, rfl⟩)⟩
  · have hl : kind.isList = true := by simpa [hasLine, hp] using h
    rw [if_neg fun hk => hp hk.1, if_pos ⟨hl, rfl⟩]
    exact ⟨_, [], rfl, "\n" ++ Text.trimLineStart text, String.append_assoc, Or.inr (Or.inr ⟨_, rfl⟩)⟩

/-- Of the other parts a blank one is left out, and the marker stands above the first that is not. -/
theorem partLines_of_not_hasLine (h : hasLine kind = false) :
    (Text.isAllBlank text = true ∧ partLines scope indent false kind text = []) ∨
      (Text.isAllBlank text = false ∧
        FirstBeginsWith (bareMarker scope indent) (partLines scope indent false kind text)) := by
  obtain ⟨hp, hl⟩ : kind ≠ .paragraph ∧ kind.isList = false := by simpa [hasLine] using h
  have hblank : Text.trimEnd (Text.trimLineStart text) = "" ↔ Text.isAllBlank text = true := by
    rw [Text.trimEnd_eq_empty_iff, Text.isAllBlank_trimLineStart]
  unfold partLines
  by_cases hb : Text.isAllBlank text = true
  · exact Or.inl ⟨hb, by simp [hp, hl, hblank.2 hb]⟩
  · have hseen := mt hblank.1 hb
    let content := indent ++ "  " ++ Text.trimEnd (Text.trimLineStart text)
    refine Or.inr ⟨Bool.eq_false_iff.2 hb, bareMarker scope indent, [content], ?_, "", String.append_empty.symm, ?_⟩
    · simp [content, hp, hl, hseen]
    · exact Or.inl rfl

end

/-! ## Items -/

section
variable (setting : Setting) (scope : Scope) (place : Place) (indent : String)

theorem run_itemParts_cons (node : Node) (nodes : List Node) (i : Nat) (memory : Memory) :
    let first := (visit .marked setting scope (i :: place) (partIndent indent false node.kind) node).run memory
    let own := partLines scope indent false node.kind (String.join first.1)
    ((visitItemParts .marked setting scope place indent false i (node :: nodes)).run memory).1 =
      own ++ ((visitItemParts .marked setting scope place indent (!own.isEmpty) (i + 1) nodes).run first.2).1 := rfl

/-- Nothing is written for the parts of an item if none has a line and all are blank; otherwise the marker comes
first. -/
theorem itemParts_begin (nodes : List Node) (i : Nat) (memory : Memory) :
    let lines := ((visitItemParts .marked setting scope place indent false i nodes).run memory).1
    let parts := ((visitParts .marked setting scope place i nodes).run memory).1
    let unseen := (∀ node ∈ nodes, hasLine node.kind = false) ∧ ∀ part ∈ parts, Text.isAllBlank part.2 = true
    (unseen ∧ lines = []) ∨ (¬unseen ∧ FirstBeginsWith (bareMarker scope indent) lines) := by
  induction nodes generalizing i memory with
  | nil => exact Or.inl ⟨⟨nofun, nofun⟩, rfl⟩
  | cons node nodes ih =>
    intro lines parts unseen
    have hlines : lines = _ := run_itemParts_cons setting scope place indent node nodes i memory
    cases hline : hasLine node.kind with
    | true =>
      have hseen : ¬unseen := fun h => Bool.false_ne_true ((h.1 node (List.mem_cons_self ..)).symm.trans hline)
      exact Or.inr ⟨hseen, hlines ▸ (partLines_of_hasLine scope indent _ hline).append _⟩
    | false =>
      -- No list comes first, so the part is rendered without a margin.
      have hindent : partIndent indent false node.kind = "" := by
        have hl : node.kind.isList = false := (Bool.or_eq_false_iff.1 hline).2
        simp [partIndent, hl]
      let first := (visit .marked setting scope (i :: place) "" node).run memory
      have hparts : parts = (node.kind, String.join first.1) ::
          ((visitParts .marked setting scope place (i + 1) nodes).run first.2).1 := rfl
      rw [hindent] at hlines
      rcases partLines_of_not_hasLine scope indent (String.join first.1) hline with ⟨hb, hown⟩ | ⟨hb, hown⟩
      · have rest := ih (i + 1) first.2
        simp only [first, hown] at hlines
        simpa [unseen, hlines, hparts, hline, hb] using rest
      · have hseen : ¬unseen := fun h =>
          Bool.false_ne_true (hb.symm.trans (h.2 (node.kind, _) (hparts ▸ List.mem_cons_self ..)))
        exact Or.inr ⟨hseen, hlines ▸ hown.append _⟩

end

/-- **No item without its marker.** Nothing is written for an item exactly if none of its parts is a paragraph or a
list and all that is rendered for them is blank. Otherwise the item begins with its margin, which a cell does not
have, and the marker of its list. -/
theorem item_begins (node : Node) (place : Place) (indent : String) (context : Context) :
    let item := ((Walk.renderItem place indent node).run context).1
    let parts := ((Walk.renderParts place 0 node.content).run context).1
    let scope := context.scope
    let margin := if scope.inCell then "" else indent
    let marker := repeated (max 1 scope.listDepth) (if scope.bulleted then '*' else '.')
    (item = "" ↔ (∀ child ∈ node.content, child.kind ≠ .paragraph ∧ child.kind.isList = false) ∧
        ∀ part ∈ parts, Text.isAllBlank part.2 = true) ∧
      (item ≠ "" → BeginsWith (margin ++ marker) item) := by
  intro item parts scope margin marker
  have hlines : ∀ child : Node, hasLine child.kind = false ↔ child.kind ≠ .paragraph ∧ child.kind.isList = false := by
    simp [hasLine]
  have hbegin := itemParts_begin context.setting scope place indent node.content 0 context.memory
  have hparts : parts = ((visitParts .marked context.setting scope place 0 node.content).run context.memory).1 := by
    simp only [parts, Walk.renderParts_eq]
    rfl
  have hitem : item = itemMarkup
      ((visitItemParts .marked context.setting scope place indent false 0 node.content).run context.memory).1 := by
    simp only [item, Walk.renderItem_eq, visitItem_def]
    rfl
  simp only [← hparts, hlines] at hbegin
  rcases hbegin with ⟨hunseen, hnone⟩ | ⟨hseen, hfirst⟩
  · have hempty : item = "" := by rw [hitem, hnone]; rfl
    exact ⟨⟨fun _ => hunseen, fun _ => hempty⟩, fun h => absurd hempty h⟩
  · have hmarked : BeginsWith (margin ++ marker) item := hitem ▸ hfirst.itemMarkup
    exact ⟨⟨fun h => absurd h (hmarked.ne_empty (by simp [marker, repeated])), fun h => absurd h hseen⟩,
      fun _ => hmarked⟩

end WikiPress.Render
