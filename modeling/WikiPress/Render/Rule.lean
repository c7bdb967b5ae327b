import WikiPress.Macro
import WikiPress.Render.Block
import WikiPress.Render.Cell
import WikiPress.Render.Image
import WikiPress.Render.Inline
import WikiPress.Render.List

/-!
# Rules

How a node of each kind is rendered: by itself, around what is in it, or part by part. A rule says
which parts are visited and in which scope; the visits themselves are the renderer's.
-/

namespace WikiPress.Render

structure Setting where
  options : Options := {}
  macros : Macro.Registry := .standard
  title? : String → Option String := fun _ => none

/-! ## Steps on the memory -/

def takeSkip (place : Place) : RenderM Bool :=
  modifyGet (·.takeSkip place)

/-- Has a caption left out when it is met, for it is written elsewhere. -/
def skipCaption : Option (Place × String) → RenderM Unit
  | some (place, _) => modify (·.skip place)
  | none => pure ()

def note (notice : Notice) : RenderM Unit :=
  modify (·.note notice)

def noteAll (notices : List Notice) : RenderM Unit :=
  notices.forM note

def addAnchor : Option String → RenderM Unit
  | some id => modify (·.addAnchor id)
  | none => pure ()

/-- Renders the macro that handles a node. A failure is told, and leaves a comment. -/
def renderMacro (position : Macro.Position) (node : Node) (handler : Macro) :
    RenderM (List String) := do
  let key := Macro.keyOf node
  match handler.render node with
  | .ok result =>
    addAnchor result.anchor
    noteAll result.notice.toList
    pure result.fragments
  | .error failure =>
    note (.macroFailed position.name key failure.message)
    pure [Macro.failureComment key failure]

def firstMedia? : List Node → Option (Nat × Node)
  | [] => none
  | node :: nodes =>
    if node.kind = .media then some (0, node)
    else (firstMedia? nodes).map fun (i, media) => (i + 1, media)

/-- The index of the first caption; `i` is the index of the first node. -/
def firstCaption? (i : Nat) : List Node → Option Nat
  | [] => none
  | node :: nodes => if node.kind = .caption then some i else firstCaption? (i + 1) nodes

/-! ## Leaves -/

/-- How a node is rendered whose content is not visited. -/
inductive Leaf where
  | fixed (fragments : List String)
  | text
  | mention
  | card
  | handled (position : Macro.Position) (handler : Macro)

def renderLeaf (setting : Setting) (scope : Scope) (node : Node) : Leaf → RenderM (List String)
  | .fixed fragments => pure fragments
  | .text => return [← renderText setting.options scope.inCell node]
  | .mention => return [← renderMention scope.inCell node]
  | .card => return [← renderCard setting.options setting.title? scope.inCell node]
  | .handled position handler => renderMacro position node handler

/-! ## Rules of nodes -/

inductive Rule where
  | leaf (leaf : Leaf)
  /-- The text of what is in the node is marked up. -/
  | wrap (markup : String → List String)
  /-- What is in the node stands for it. -/
  | through (indent : String) (notices : List Notice)
  /-- The nodes in it are rows, whatever their types. -/
  | table
  /-- The nodes in it are cells, whatever their types. -/
  | row
  | cell
  | list (bulleted : Bool)
  | item
  | tasks
  /-- The image with an index among the nodes in it comes first, titled by a caption. -/
  | figure (index : Nat) (media : Node)

namespace Rule

/-- A macro without a handler stands for what is in it. -/
def ofMacro (setting : Setting) (position : Macro.Position) (node : Node) : Rule :=
  let key := Macro.keyOf node
  match setting.macros.find? position key with
  | some handler => .leaf (.handled position handler)
  | none => .through "" [.macroWithoutHandler position.name key]

/-- The rule of a node. `indent` is the margin for lists. -/
def ofNode (setting : Setting) (scope : Scope) (indent : String) (node : Node) : Rule :=
  match node.kind with
  | .paragraph => .wrap (paragraphMarkup indent)
  | .heading => .wrap fun text => [headingMarkup (headingLevel node) text]
  | .codeBlock => .leaf (.fixed (codeMarkup node))
  | .panel => .wrap fun body => [panelMarkup node body]
  | .rule => .leaf (.fixed [ruleMarkup])
  | .table => .table
  | .tableRow => .row
  | .tableCell | .tableHeader => .cell
  | .media => .leaf (.fixed [imageBlock setting.options node none])
  | .mediaSingle =>
    match firstMedia? node.content with
    | none => .leaf (.fixed [])
    | some (index, media) => .figure index media
  | .mediaInline => .leaf (.fixed [imageInline setting.options node])
  | .bulletList => .list true
  | .orderedList => .list false
  | .listItem => .item
  | .taskList => .tasks
  | .taskItem => .wrap fun text => [taskMarkup scope indent node text]
  | .blockMacro => ofMacro setting .block node
  | .inlineMacro => ofMacro setting .inline node
  | .text => .leaf .text
  | .hardBreak => .leaf (.fixed [hardBreakMarkup])
  | .mention => .leaf .mention
  | .inlineCard => .leaf .card
  | .emoji => .leaf (.fixed [emojiText node])
  | .doc | .mediaGroup | .caption => .through indent []
  | .unknown => .through indent [.unknownType node.type]

end Rule

end WikiPress.Render
