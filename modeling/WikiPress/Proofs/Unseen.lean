import WikiPress.Proofs.Unsized
import WikiPress.Proofs.Walk

/-!
# Sizes are not seen

Nothing that is done with a document looks at the sizes in it: neither the markup of its nodes and macros nor what is
kept in the memory, nor the pages it points to. So a page reads the same when its wide media have been narrowed.
-/

namespace WikiPress

open Json (Value Fields isSize)

/-! ## What is read of a node -/

namespace Json.Value

@[simp] theorem text?_unsized (value : Value) : value.unsized.text? = value.text? := by
  cases value <;> rfl

theorem get?_unsized {key : String} (h : isSize key = false) (value : Value) :
    value.unsized.get? key = (value.get? key).map unsized := by
  cases value with
  | object fields => exact Fields.lookup_unsized h fields
  | _ => rfl

end Json.Value

namespace Mark

variable (mark : Mark)

@[simp] theorem text?_unsized (key : String) : mark.unsized.text? key = mark.text? key :=
  Fields.text?_unsized key mark.attrs

@[simp] theorem kind_unsized : mark.unsized.kind = mark.kind := by
  rw [kind, text?_unsized, kind]
  rfl

@[simp] theorem href?_unsized : mark.unsized.href? = mark.href? :=
  mark.text?_unsized "href"

end Mark

namespace Node

section
variable (node : Node)

@[simp] theorem type_unsized : node.unsized.type = node.type := by
  cases node; rfl

@[simp] theorem attrs_unsized : node.unsized.attrs = node.attrs.unsized := by
  cases node; rfl

@[simp] theorem content_unsized : node.unsized.content = unsizedAll node.content := by
  cases node; rfl

@[simp] theorem marks_unsized : node.unsized.marks = node.marks.map Mark.unsized := by
  cases node; rfl

@[simp] theorem text_unsized : node.unsized.text = node.text := by
  cases node; rfl

@[simp] theorem kind_unsized : node.unsized.kind = node.kind :=
  congrArg Kind.ofType node.type_unsized

@[simp] theorem ownText_unsized : node.unsized.ownText = node.ownText :=
  congrArg (·.getD "") node.text_unsized

@[simp] theorem text?_unsized (key : String) : node.unsized.text? key = node.text? key := by
  rw [text?, attrs_unsized, Fields.text?_unsized, text?]

@[simp] theorem someText?_unsized (key : String) : node.unsized.someText? key = node.someText? key := by
  rw [someText?, text?_unsized, someText?]

theorem attr?_unsized {key : String} (h : isSize key = false) :
    node.unsized.attr? key = (node.attr? key).map Value.unsized := by
  rw [attr?, attrs_unsized, Fields.lookup_unsized h, attr?]

theorem unsigned64?_unsized {key : String} (h : isSize key = false) :
    node.unsized.unsigned64? key = node.unsigned64? key := by
  rw [unsigned64?, attr?_unsized node h, unsigned64?]
  obtain _ | value := node.attr? key
  · rfl
  · cases value <;> rfl

end

mutual

@[simp] theorem plainText_unsized : ∀ node : Node, node.unsized.plainText = node.plainText
  | ⟨_, _, content, _, text⟩ => congrArg (text.getD "" ++ ·) (plainTexts_unsized content)

theorem plainTexts_unsized : ∀ nodes : List Node, plainTexts (unsizedAll nodes) = plainTexts nodes
  | [] => rfl
  | node :: nodes => congrArg₂ (· ++ ·) (plainText_unsized node) (plainTexts_unsized nodes)

end

end Node

/-! ## Macros -/

namespace Macro

variable (node : Node)

@[simp] theorem keyOf_unsized : keyOf node.unsized = keyOf node := by
  rw [keyOf, Node.text?_unsized, keyOf]

theorem parameter_unsized {name : String} (h : isSize name = false) :
    parameter node.unsized name = parameter node name := by
  unfold parameter
  simp (disch := first | assumption | decide) only [Node.attr?_unsized, Value.get?_unsized, Value.text?_unsized,
    Option.bind_eq_bind, Option.bind_map, Function.comp_def]

@[simp] theorem render_unsized (handler : Macro) : render node.unsized handler = render node handler := by
  cases handler <;> simp (disch := decide) only [render, parameter_unsized]

end Macro

namespace Render

/-! ## Markup -/

section
variable (node : Node)

@[simp] theorem headingLevel_unsized : headingLevel node.unsized = headingLevel node := by
  rw [headingLevel, Node.unsigned64?_unsized node rfl, headingLevel]

@[simp] theorem codeMarkup_unsized : codeMarkup node.unsized = codeMarkup node := by
  rw [codeMarkup, Node.someText?_unsized, Node.plainText_unsized, codeMarkup]

@[simp] theorem panelMarkup_unsized (body : String) : panelMarkup node.unsized body = panelMarkup node body := by
  rw [panelMarkup, admonition, Node.text?_unsized, ← admonition, ← panelMarkup]

@[simp] theorem taskMarkup_unsized (scope : Scope) (indent text : String) :
    taskMarkup scope indent node.unsized text = taskMarkup scope indent node text := by
  rw [taskMarkup, checkbox, Node.text?_unsized, ← checkbox, ← taskMarkup]

@[simp] theorem mediaFileName_unsized (options : Options) :
    mediaFileName options node.unsized = mediaFileName options node := by
  rw [mediaFileName, Node.text?_unsized, mediaFileName]

@[simp] theorem imageBlock_unsized (options : Options) (caption : Option String) :
    imageBlock options node.unsized caption = imageBlock options node caption := by
  simp only [imageBlock, imageTitle?, mediaFileName_unsized, Node.someText?_unsized]

@[simp] theorem imageInline_unsized (options : Options) :
    imageInline options node.unsized = imageInline options node := by
  simp only [imageInline, mediaFileName_unsized, Node.someText?_unsized]

@[simp] theorem emojiText_unsized : emojiText node.unsized = emojiText node := by
  simp only [emojiText, Node.someText?_unsized, Node.text?_unsized]

@[simp] theorem cellMarkup_unsized (cell : Cell) : cell.markup node.unsized = cell.markup node := by
  simp (disch := decide) only [Cell.markup, spanText, spanOf?, Node.unsigned64?_unsized]

end

/-! ## Leaves -/

section
variable (marks : List Mark)

@[simp] theorem formatted_unsized (text : String) : formatted (marks.map Mark.unsized) text = formatted marks text := by
  simp only [formatted, List.foldl_map, Mark.kind_unsized]

@[simp] theorem href?_unsized : href? (marks.map Mark.unsized) = href? marks := by
  simp only [href?, List.filter_map, List.getLast?_map, Option.bind_map, Function.comp_def, Mark.kind_unsized,
    Mark.href?_unsized]

end

section
variable (setting : Setting) (scope : Scope) (node : Node)

@[simp] theorem renderText_unsized (options : Options) (inCell : Bool) :
    renderText options inCell node.unsized = renderText options inCell node := by
  simp only [renderText, textMarkup, linkedText, Node.marks_unsized, Node.ownText_unsized, href?_unsized,
    formatted_unsized]

@[simp] theorem renderMention_unsized (inCell : Bool) :
    renderMention inCell node.unsized = renderMention inCell node := by
  rw [renderMention, mentionedName, Node.text?_unsized, Node.text?_unsized, ← mentionedName, ← renderMention]

@[simp] theorem renderMacro_unsized (position : Macro.Position) (handler : Macro) :
    renderMacro position node.unsized handler = renderMacro position node handler := by
  simp only [renderMacro, Macro.render_unsized, Macro.keyOf_unsized]

theorem renderLeaf_unsized (leaf : Leaf) :
    renderLeaf setting scope node.unsized leaf = renderLeaf setting scope node leaf := by
  cases leaf with
  | fixed fragments => rfl
  | text => simp only [renderLeaf, renderText_unsized]
  | mention => simp only [renderLeaf, renderMention_unsized]
  | card => simp only [renderLeaf, renderCard, Node.someText?_unsized]
  | handled position handler => simp only [renderLeaf, renderMacro_unsized]

end

/-! ## Rules -/

@[simp] theorem firstMedia?_unsized (nodes : List Node) :
    firstMedia? (Node.unsizedAll nodes) = (firstMedia? nodes).map fun (index, media) => (index, media.unsized) := by
  induction nodes with
  | nil => rfl
  | cons node nodes ih =>
    rw [Node.unsizedAll, firstMedia?, firstMedia?, Node.kind_unsized, ih]
    split
    · rfl
    · rw [Option.map_map, Option.map_map]
      rfl

namespace Rule

/-- No rule keeps a size, but a figure keeps its image. -/
def unsized : Rule → Rule
  | .figure index media => .figure index media.unsized
  | rule => rule

variable (setting : Setting) (node : Node)

theorem ofMacro_unsized (position : Macro.Position) :
    ofMacro setting position node.unsized = (ofMacro setting position node).unsized := by
  rw [ofMacro, Macro.keyOf_unsized, ofMacro]
  cases setting.macros.find? position (Macro.keyOf node) <;> rfl

theorem ofNode_unsized (scope : Scope) (indent : String) :
    ofNode setting scope indent node.unsized = (ofNode setting scope indent node).unsized := by
  rw [ofNode, ofNode, Node.kind_unsized]
  cases node.kind with
  | mediaSingle =>
    rw [Node.content_unsized, firstMedia?_unsized]
    cases firstMedia? node.content <;> rfl
  | blockMacro => exact ofMacro_unsized setting node .block
  | inlineMacro => exact ofMacro_unsized setting node .inline
  | _ => simp [unsized]

end Rule

/-! ## Visits -/

section
variable (setting : Setting)

mutual

/-- **Sizes are not seen** by a visit: nodes that agree apart from these are rendered alike. -/
theorem visit_unsized : ∀ (node : Node) (scope : Scope) (place : Place) (indent : String),
    visit .marked setting scope place indent node.unsized = visit .marked setting scope place indent node
  | ⟨type, attrs, content, marks, text⟩, scope, place, indent => by
    rw [visit_def, visit_def, Rule.ofNode_unsized]
    refine congrArg (takeSkip place >>= ·) (funext fun skipped => ?_)
    congr 1
    generalize Rule.ofNode setting scope indent _ = rule
    cases rule with
    | leaf leaf => exact renderLeaf_unsized setting scope _ leaf
    | wrap markup => simp only [Rule.unsized, visitBy, Node.unsized, visitAll_unsized content]
    | through margin notices => simp only [Rule.unsized, visitBy, Node.unsized, visitAll_unsized content]
    | table => simp only [Rule.unsized, visitBy, Node.unsized, visitRows_unsized content]
    | row => simp only [Rule.unsized, visitBy, Node.unsized, visitCells_unsized content]
    | cell => simp only [Rule.unsized, visitBy, Node.unsized, visitParts_unsized content]
    | list bulleted => simp only [Rule.unsized, visitBy, Node.unsized, visitItems_unsized content]
    | item => simp only [Rule.unsized, visitBy, Node.unsized, visitItemParts_unsized content]
    | tasks => simp only [Rule.unsized, visitBy, Node.unsized, visitTasks_unsized content]
    | figure index media =>
      have hleft : Captions.marked.left (Node.unsizedAll content) index = Captions.marked.left content index := rfl
      simp only [Rule.unsized, visitBy, Node.unsized, visitCaption_unsized content, imageBlock_unsized, hleft,
        visitOthers_unsized content]

theorem visitAll_unsized : ∀ (nodes : List Node) (scope : Scope) (place : Place) (indent : String) (i : Nat),
    visitAll .marked setting scope place indent i (Node.unsizedAll nodes) =
      visitAll .marked setting scope place indent i nodes
  | [], _, _, _, _ => rfl
  | node :: nodes, scope, place, indent, i => by
    simp only [Node.unsizedAll, visitAll, visit_unsized node, visitAll_unsized nodes]

theorem visitOthers_unsized : ∀ (nodes : List Node) (scope : Scope) (place : Place) (left : Nat → Bool) (i : Nat),
    visitOthers .marked setting scope place left i (Node.unsizedAll nodes) =
      visitOthers .marked setting scope place left i nodes
  | [], _, _, _, _ => rfl
  | node :: nodes, scope, place, left, i => by
    simp only [Node.unsizedAll, visitOthers, visit_unsized node, visitOthers_unsized nodes]

theorem visitCaption_unsized : ∀ (nodes : List Node) (scope : Scope) (place : Place) (i : Nat),
    visitCaption .marked setting scope place i (Node.unsizedAll nodes) =
      visitCaption .marked setting scope place i nodes
  | [], _, _, _ => rfl
  | node :: nodes, scope, place, i => by
    simp only [Node.unsizedAll, visitCaption, Node.kind_unsized, visitContent_unsized node, visitCaption_unsized nodes]

theorem visitContent_unsized : ∀ (node : Node) (scope : Scope) (place : Place),
    visitContent .marked setting scope place node.unsized = visitContent .marked setting scope place node
  | ⟨_, _, content, _, _⟩, scope, place => by
    simp only [Node.unsized, visitContent, visitAll_unsized content]

theorem visitItems_unsized : ∀ (nodes : List Node) (scope : Scope) (place : Place) (indent : String) (i : Nat),
    visitItems .marked setting scope place indent i (Node.unsizedAll nodes) =
      visitItems .marked setting scope place indent i nodes
  | [], _, _, _, _ => rfl
  | node :: nodes, scope, place, indent, i => by
    simp only [Node.unsizedAll, visitItems, Node.kind_unsized, visitItem_unsized node, visitItems_unsized nodes]

theorem visitItem_unsized : ∀ (node : Node) (scope : Scope) (place : Place) (indent : String),
    visitItem .marked setting scope place indent node.unsized = visitItem .marked setting scope place indent node
  | ⟨_, _, content, _, _⟩, scope, place, indent => by
    simp only [Node.unsized, visitItem, visitItemParts_unsized content]

theorem visitItemParts_unsized : ∀ (nodes : List Node) (scope : Scope) (place : Place) (indent : String)
    (started : Bool) (i : Nat), visitItemParts .marked setting scope place indent started i (Node.unsizedAll nodes) =
      visitItemParts .marked setting scope place indent started i nodes
  | [], _, _, _, _, _ => rfl
  | node :: nodes, scope, place, indent, started, i => by
    simp only [Node.unsizedAll, visitItemParts, Node.kind_unsized, visit_unsized node, visitItemParts_unsized nodes]

theorem visitTasks_unsized : ∀ (nodes : List Node) (scope : Scope) (place : Place) (indent : String) (i : Nat),
    visitTasks .marked setting scope place indent i (Node.unsizedAll nodes) =
      visitTasks .marked setting scope place indent i nodes
  | [], _, _, _, _ => rfl
  | node :: nodes, scope, place, indent, i => by
    simp only [Node.unsizedAll, visitTasks, Node.kind_unsized, taskMarkup_unsized, visitContent_unsized node,
      visit_unsized node, visitTasks_unsized nodes]

theorem visitRows_unsized : ∀ (nodes : List Node) (scope : Scope) (place : Place) (i : Nat),
    visitRows .marked setting scope place i (Node.unsizedAll nodes) = visitRows .marked setting scope place i nodes
  | [], _, _, _ => rfl
  | node :: nodes, scope, place, i => by
    simp only [Node.unsizedAll, visitRows, visitRow_unsized node, visitRows_unsized nodes]

theorem visitRow_unsized : ∀ (node : Node) (scope : Scope) (place : Place),
    visitRow .marked setting scope place node.unsized = visitRow .marked setting scope place node
  | ⟨_, _, content, _, _⟩, scope, place => by
    simp only [Node.unsized, visitRow, visitCells_unsized content]

theorem visitCells_unsized : ∀ (nodes : List Node) (scope : Scope) (place : Place) (i : Nat),
    visitCells .marked setting scope place i (Node.unsizedAll nodes) = visitCells .marked setting scope place i nodes
  | [], _, _, _ => rfl
  | node :: nodes, scope, place, i => by
    simp only [Node.unsizedAll, visitCells, cellMarkup_unsized, visitCell_unsized node, visitCells_unsized nodes]

theorem visitCell_unsized : ∀ (node : Node) (scope : Scope) (place : Place),
    visitCell .marked setting scope place node.unsized = visitCell .marked setting scope place node
  | ⟨_, _, content, _, _⟩, scope, place => by
    simp only [Node.unsized, visitCell, visitParts_unsized content]

theorem visitParts_unsized : ∀ (nodes : List Node) (scope : Scope) (place : Place) (i : Nat),
    visitParts .marked setting scope place i (Node.unsizedAll nodes) = visitParts .marked setting scope place i nodes
  | [], _, _, _ => rfl
  | node :: nodes, scope, place, i => by
    simp only [Node.unsizedAll, visitParts, Node.kind_unsized, visit_unsized node, visitParts_unsized nodes]

end

theorem renderDocument_unsized (title : Option String) (node : Node) :
    renderDocument setting title node.unsized = renderDocument setting title node := by
  rw [renderDocument, Walk.within_render, visit_unsized, ← Walk.within_render, ← renderDocument]

end

end Render

/-! ## Links -/

namespace Link

theorem urlsOf_unsized (node : Node) : urlsOf node.unsized = urlsOf node := by
  rw [urlsOf, Node.marks_unsized, Node.kind_unsized, Node.text?_unsized, List.filter_map, List.filterMap_map]
  simp only [Function.comp_def, Mark.kind_unsized, Mark.href?_unsized]
  rfl

mutual

theorem urlsBelow_unsized : ∀ node : Node, urlsBelow node.unsized = urlsBelow node
  | ⟨type, attrs, content, marks, text⟩ =>
    congrArg₂ (· ++ ·) (urlsOf_unsized ⟨type, attrs, content, marks, text⟩) (urlsBelowAll_unsized content)

theorem urlsBelowAll_unsized : ∀ nodes : List Node, urlsBelowAll (Node.unsizedAll nodes) = urlsBelowAll nodes
  | [] => rfl
  | node :: nodes => congrArg₂ (· ++ ·) (urlsBelow_unsized node) (urlsBelowAll_unsized nodes)

end

theorem linkedPages_unsized (node : Node) (baseUrl : String) :
    linkedPages node.unsized baseUrl = linkedPages node baseUrl := by
  rw [linkedPages, urlsBelow_unsized, ← linkedPages]

end Link

/-! ## Narrowed documents -/

namespace Upload

open Render (toAsciidoc renderDocument)

theorem ofValue_clampWidths (limit : Option Nat) (tree : Value) :
    Node.unsized <$> Node.ofValue (clampWidths limit tree) = Node.unsized <$> Node.ofValue tree := by
  rw [← Node.ofValue_unsized, unsized_clampWidths, Node.ofValue_unsized]

/-- **Narrowing is not seen.** A tree is read as a document exactly when the narrowed tree is, and both documents are
written alike, with the same anchors and mentions in the memory, and point to the same pages. -/
theorem clampWidths_unseen (limit : Option Nat) (tree : Value) :
    ((∃ narrow, Node.ofValue (clampWidths limit tree) = .ok narrow) ↔ ∃ node, Node.ofValue tree = .ok node) ∧
      ∀ narrow node, Node.ofValue (clampWidths limit tree) = .ok narrow → Node.ofValue tree = .ok node →
        (∀ title options, toAsciidoc narrow title options = toAsciidoc node title options) ∧
        (∀ setting title memory,
          (renderDocument setting title narrow).run memory = (renderDocument setting title node).run memory) ∧
        ∀ baseUrl, Link.linkedPages narrow baseUrl = Link.linkedPages node baseUrl := by
  have h := ofValue_clampWidths limit tree
  have read (value : Value) :
      (∃ node, Node.ofValue value = .ok node) ↔ ∃ node, Node.unsized <$> Node.ofValue value = .ok node := by
    cases Node.ofValue value <;> simp
  refine ⟨by rw [read, read, h], ?_⟩
  intro narrow node hnarrow hnode
  rw [hnarrow, hnode] at h
  have halike : narrow.unsized = node.unsized := Except.ok.inj h
  have hrender (setting : Render.Setting) (title : Option String) :
      renderDocument setting title narrow = renderDocument setting title node := by
    rw [← Render.renderDocument_unsized, halike, Render.renderDocument_unsized]
  refine ⟨?_, ?_, ?_⟩
  · intro title options
    rw [toAsciidoc, hrender, ← toAsciidoc]
  · intro setting title memory
    rw [hrender]
  · intro baseUrl
    rw [← Link.linkedPages_unsized, halike, Link.linkedPages_unsized]

/-- A page with one image of a given size. -/
def imagePage (width height : Int) : Node :=
  { type := "doc"
    content := [{ type := "media",
                  attrs := [("alt", .string "Map"), ("height", .number (.integer height)), ("id", .string "map.png"),
                    ("width", .number (.integer width))] }] }

theorem clampWidths_unseen_image :
    Node.ofValue (imagePage 1600 900).toValue = .ok (imagePage 1600 900) ∧
      Node.ofValue (clampWidths (some 800) (imagePage 1600 900).toValue) = .ok (imagePage 800 450) ∧
      toAsciidoc (imagePage 800 450) (some "Map") {} = toAsciidoc (imagePage 1600 900) (some "Map") {} := by
  have hwide : Node.ofValue (imagePage 1600 900).toValue = .ok (imagePage 1600 900) := by rfl
  have hnarrow : Node.ofValue (clampWidths (some 800) (imagePage 1600 900).toValue) = .ok (imagePage 800 450) := by
    decide +kernel
  exact ⟨hwide, hnarrow, ((clampWidths_unseen (some 800) _).2 _ _ hnarrow hwide).1 (some "Map") {}⟩

end Upload

end WikiPress
