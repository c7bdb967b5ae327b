import WikiPress.Link
import WikiPress.Render.Memory

/-!
# Inline markup

Texts with their marks, mentions, cards and emoji. In a table cell a bar would end the cell, so every
bar of a text is escaped there.
-/

namespace WikiPress.Render

def escapeInCell (inCell : Bool) (s : String) : String :=
  if inCell then Text.escapeChar '|' s else s

/-! ## Texts -/

/-- Puts the markup of a mark around a text. Links are put around the formatted text later. -/
def wrapped (kind : Mark.Kind) (text : String) : String :=
  match kind with
  | .strong => "*" ++ text ++ "*"
  | .emphasis => "_" ++ text ++ "_"
  | .code => "\x60" ++ text ++ "\x60"
  | .strike => "[.line-through]#" ++ text ++ "#"
  | .underline => "[.underline]#" ++ text ++ "#"
  | .subscript => "~" ++ text ++ "~"
  | .superscript => "^" ++ text ++ "^"
  | .link | .other => text

/-- Marks wrap a text in their order, the first one innermost. -/
def formatted (marks : List Mark) (text : String) : String :=
  marks.foldl (fun text mark => wrapped mark.kind text) text

def href? (marks : List Mark) : Option String :=
  ((marks.filter (·.kind = .link)).getLast?).bind Mark.href?

/-- A text that is not blank, without the blanks at its end, formatted and linked. -/
def linkedText (options : Options) (anchors : List String) (node : Node) : String :=
  let text := formatted node.marks (Text.trimEnd node.ownText)
  match href? node.marks with
  | none => text
  | some href => Link.markup (Link.classify options anchors href) text

/-- The markup of a text node. The blanks at its end stay outside of all marks, and a blank text gets
no marks. -/
def textMarkup (options : Options) (anchors : List String) (inCell : Bool) (node : Node) : String :=
  let raw := node.ownText
  if Text.isAllBlank raw then escapeInCell inCell raw
  else
    escapeInCell inCell
      (linkedText options anchors node ++ String.ofList (Text.blankEnd raw.toList))

def noteLink (options : Options) (href : String) (memory : Memory) : Memory :=
  if Link.isUnmappedPage options memory.anchors href then memory.note (.unmappedPage href)
  else memory

def renderText (options : Options) (inCell : Bool) (node : Node) : RenderM String := do
  let memory ← get
  match href? node.marks with
  | some href => if Text.isAllBlank node.ownText then pure () else set (noteLink options href memory)
  | none => pure ()
  pure (textMarkup options memory.anchors inCell node)

/-! ## Mentions -/

/-- The name of a mentioned user, without the signs that lead it. -/
def mentionedName (node : Node) : String :=
  .ofList (((node.text? "text").getD "").toList.dropWhile (· == '@'))

def renderMention (inCell : Bool) (node : Node) : RenderM String := do
  let id := (node.text? "id").getD ""
  let name := mentionedName node
  if name ≠ "" ∧ id ≠ "" then modify (·.addMention name id)
  pure (escapeInCell inCell ("@" ++ if name = "" then id else name))

/-! ## Cards -/

def mappedTitle? (options : Options) (url : String) : Option String := do
  let id ← PageId.ofString url
  let page ← options.pages.lookup id
  if page.title = "" then none else some page.title

/-- The label of a card: the title of a page, else the title found elsewhere, else the URL. -/
def cardLabel (options : Options) (title? : String → Option String) (url : String) : String :=
  ((mappedTitle? options url).or (title? url)).getD url

def renderCard (options : Options) (title? : String → Option String) (inCell : Bool)
    (node : Node) : RenderM String := do
  match node.someText? "url" with
  | none => pure ""
  | some url =>
    let memory ← get
    set (noteLink options url memory)
    let target := Link.classify options memory.anchors url
    pure (escapeInCell inCell (Link.markup target (cardLabel options title? url)))

/-! ## Emoji -/

def emojiText (node : Node) : String :=
  ((node.someText? "text").or (node.text? "shortName")).getD ""

end WikiPress.Render
