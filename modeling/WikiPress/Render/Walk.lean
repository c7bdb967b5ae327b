import WikiPress.Render.Rule

/-!
# The walk through a document

One context goes through the tree in order. The setting in it stays as it is, the memory grows, and the
scope is exchanged for the time of a nested construct and then put back.
-/

namespace WikiPress.Render

structure Context where
  setting : Setting := {}
  scope : Scope := {}
  memory : Memory := {}

abbrev WalkM := StateM Context

namespace Walk

variable {α : Type}

/-- A step that is about the memory only. -/
def onMemory (step : RenderM α) : WalkM α := fun context =>
  let (a, memory) := step.run context.memory
  (a, { context with memory })

/-- Walks in another scope, and puts the scope back. -/
def withScope (scope : Scope) (walk : WalkM α) : WalkM α := do
  let outer := (← get).scope
  modify ({ · with scope })
  let a ← walk
  modify ({ · with scope := outer })
  return a

/-- A walk from a given setting and scope, as a step on the memory. -/
def within (setting : Setting) (scope : Scope) (walk : WalkM α) : RenderM α := fun memory =>
  let (a, context) := walk.run { setting, scope, memory }
  (a, context.memory)

mutual

/-- Renders a node as a list of fragments. `indent` is the margin for lists. -/
def render (place : Place) (indent : String) : Node → WalkM (List String)
  | ⟨type, attrs, content, marks, text⟩ => do
    if ← onMemory (takeSkip place) then return []
    let context ← get
    match Rule.ofNode context.setting context.scope indent ⟨type, attrs, content, marks, text⟩ with
    | .leaf leaf =>
      onMemory (renderLeaf context.setting context.scope ⟨type, attrs, content, marks, text⟩ leaf)
    | .wrap markup => return markup (String.join (← renderAll place "" 0 content))
    | .through indent notices =>
      onMemory (noteAll notices)
      renderAll place indent 0 content
    | .table => return [tableMarkup (← renderRows place 0 content)]
    | .row => return [rowMarkup (← renderCells place 0 content)]
    | .cell => return [(Cell.ofParts (← withScope context.scope.cell (renderParts place 0 content))).text]
    | .list bulleted =>
      let items ← withScope (context.scope.inList bulleted) (renderItems place indent 0 content)
      return listMarkup (← get).scope items
    | .item => return [itemMarkup (← renderItemParts context.scope place indent false 0 content)]
    | .tasks =>
      let items ← withScope (context.scope.inList true) (renderTasks place indent 0 content)
      return listMarkup (← get).scope items
    | .figure index media =>
      let caption ← renderCaption place 0 content
      onMemory (skipCaption caption)
      let image := "\n" ++ imageBlock (← get).setting.options media (caption.map Prod.snd)
      return image :: (← renderOthers place index 0 content)

def renderAll (place : Place) (indent : String) (i : Nat) : List Node → WalkM (List String)
  | [] => return []
  | node :: nodes => do
    let first ← render (i :: place) indent node
    return first ++ (← renderAll place indent (i + 1) nodes)

/-- Renders all nodes but the one at an index. -/
def renderOthers (place : Place) (index i : Nat) : List Node → WalkM (List String)
  | [] => return []
  | node :: nodes => do
    let first ← if i = index then pure [] else render (i :: place) "" node
    return first ++ (← renderOthers place index (i + 1) nodes)

def renderCaption (place : Place) (i : Nat) : List Node → WalkM (Option (Place × String))
  | [] => return none
  | node :: nodes =>
    if node.kind = .caption then return some (i :: place, ← renderContent (i :: place) node)
    else renderCaption place (i + 1) nodes

def renderContent (place : Place) : Node → WalkM String
  | ⟨_, _, content, _, _⟩ => return String.join (← renderAll place "" 0 content)

def renderItems (place : Place) (indent : String) (i : Nat) : List Node → WalkM (List String)
  | [] => return []
  | node :: nodes => do
    if node.kind = .listItem then
      let item ← renderItem (i :: place) indent node
      return item :: (← renderItems place indent (i + 1) nodes)
    else renderItems place indent (i + 1) nodes

def renderItem (place : Place) (indent : String) : Node → WalkM String
  | ⟨_, _, content, _, _⟩ => do
    let scope := (← get).scope
    return itemMarkup (← renderItemParts scope place indent false 0 content)

/-- Renders the parts of an item. The marker and the margin are those of the scope that the item was
met in. -/
def renderItemParts (scope : Scope) (place : Place) (indent : String) (started : Bool) (i : Nat) :
    List Node → WalkM (List String)
  | [] => return []
  | node :: nodes => do
    let text := String.join (← render (i :: place) (partIndent indent started node.kind) node)
    let lines := partLines scope indent started node.kind text
    return lines ++
      (← renderItemParts scope place indent (started || !lines.isEmpty) (i + 1) nodes)

def renderTasks (place : Place) (indent : String) (i : Nat) : List Node → WalkM (List String)
  | [] => return []
  | node :: nodes => do
    if node.kind = .taskItem then
      let scope := (← get).scope
      let text ← renderContent (i :: place) node
      return taskMarkup scope indent node text :: (← renderTasks place indent (i + 1) nodes)
    else if node.kind = .taskList then
      let nested := String.join (← render (i :: place) (indent ++ "  ") node)
      return Text.trimLineStart nested :: (← renderTasks place indent (i + 1) nodes)
    else renderTasks place indent (i + 1) nodes

def renderRows (place : Place) (i : Nat) : List Node → WalkM (List String)
  | [] => return []
  | node :: nodes => do
    let row ← renderRow (i :: place) node
    return row :: (← renderRows place (i + 1) nodes)

def renderRow (place : Place) : Node → WalkM String
  | ⟨_, _, content, _, _⟩ => return rowMarkup (← renderCells place 0 content)

def renderCells (place : Place) (i : Nat) : List Node → WalkM (List String)
  | [] => return []
  | node :: nodes => do
    let cell ← renderCell (i :: place) node
    return Cell.markup node cell :: (← renderCells place (i + 1) nodes)

def renderCell (place : Place) : Node → WalkM Cell
  | ⟨_, _, content, _, _⟩ => do
    let scope := (← get).scope.cell
    return Cell.ofParts (← withScope scope (renderParts place 0 content))

def renderParts (place : Place) (i : Nat) : List Node → WalkM (List (Node.Kind × String))
  | [] => return []
  | node :: nodes => do
    let text := String.join (← render (i :: place) "" node)
    return (node.kind, text) :: (← renderParts place (i + 1) nodes)

end

end Walk

/-! ## Documents -/

def header (title : Option String) (imagesDir : String) : String :=
  let heading :=
    match (title.map Text.trim).filter (· != "") with
    | some title => "= " ++ title ++ "\n"
    | none => ""
  heading ++ ":imagesdir: " ++ imagesDir ++ "\n\n"

/-- A whole document: its title if it has one, the directory of its images, and its body. -/
def renderDocument (setting : Setting) (title : Option String) (doc : Node) : RenderM String := do
  let body ← Walk.within setting {} (Walk.render [] "" doc)
  return header title setting.options.imagesDir ++ String.join body

/-- The AsciiDoc text of a document, with the standard macros. -/
def toAsciidoc (doc : Node) (title : Option String) (options : Options) : String :=
  ((renderDocument { options } title doc).run {}).1

end WikiPress.Render
