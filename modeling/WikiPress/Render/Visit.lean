import WikiPress.Render.Rule

/-!
# Visits

Rendering with the scope handed down to each node instead of exchanged and put back. Nothing fails here: a
node without a rule of its own is rendered as its children. What is done about a caption that stands
elsewhere already is left open.
-/

namespace WikiPress.Render

/-- How a caption that titles a figure is kept from being written again where it stands. -/
structure Captions where
  /-- Is the node in a place left out? -/
  take : Place → RenderM Bool
  /-- Done about the caption of a figure before the nodes beside the image are visited. -/
  mark : Option (Place × String) → RenderM Unit
  /-- The indices that a figure leaves out, from what is in it and the index of its image. -/
  left : List Node → Nat → Nat → Bool

/-- The caption is marked, and left out when it is met. -/
def Captions.marked : Captions where
  take := takeSkip
  mark := skipCaption
  left _ index i := i = index

section
variable (captions : Captions) (setting : Setting)

mutual

/-- Renders a node as a list of fragments. `indent` is the margin for lists. -/
def visit (scope : Scope) (place : Place) (indent : String) : Node → RenderM (List String)
  | ⟨type, attrs, content, marks, text⟩ => do
    if ← captions.take place then return []
    match Rule.ofNode setting scope indent ⟨type, attrs, content, marks, text⟩ with
    | .leaf leaf => renderLeaf setting scope ⟨type, attrs, content, marks, text⟩ leaf
    | .wrap markup => return markup (String.join (← visitAll scope place "" 0 content))
    | .through indent notices =>
      noteAll notices
      visitAll scope place indent 0 content
    | .table => return [tableMarkup (← visitRows scope place 0 content)]
    | .row => return [rowMarkup (← visitCells scope place 0 content)]
    | .cell => return [(Cell.ofParts (← visitParts scope.cell place 0 content)).text]
    | .list bulleted =>
      return listMarkup scope (← visitItems (scope.inList bulleted) place indent 0 content)
    | .item => return [itemMarkup (← visitItemParts scope place indent false 0 content)]
    | .tasks => return listMarkup scope (← visitTasks (scope.inList true) place indent 0 content)
    | .figure index media =>
      let caption ← visitCaption scope place 0 content
      captions.mark caption
      let image := "\n" ++ imageBlock setting.options media (caption.map Prod.snd)
      return image :: (← visitOthers scope place (captions.left content index) 0 content)

def visitAll (scope : Scope) (place : Place) (indent : String) (i : Nat) :
    List Node → RenderM (List String)
  | [] => return []
  | node :: nodes => do
    let first ← visit scope (i :: place) indent node
    return first ++ (← visitAll scope place indent (i + 1) nodes)

/-- Renders all nodes but those at the indices that are left out. -/
def visitOthers (scope : Scope) (place : Place) (left : Nat → Bool) (i : Nat) :
    List Node → RenderM (List String)
  | [] => return []
  | node :: nodes => do
    let first ← if left i then pure [] else visit scope (i :: place) "" node
    return first ++ (← visitOthers scope place left (i + 1) nodes)

/-- Renders what is in the first caption; its place comes with it. -/
def visitCaption (scope : Scope) (place : Place) (i : Nat) :
    List Node → RenderM (Option (Place × String))
  | [] => return none
  | node :: nodes =>
    if node.kind = .caption then
      return some (i :: place, ← visitContent scope (i :: place) node)
    else visitCaption scope place (i + 1) nodes

def visitContent (scope : Scope) (place : Place) : Node → RenderM String
  | ⟨_, _, content, _, _⟩ => return String.join (← visitAll scope place "" 0 content)

/-- Renders the items of a list; other children are left out. -/
def visitItems (scope : Scope) (place : Place) (indent : String) (i : Nat) :
    List Node → RenderM (List String)
  | [] => return []
  | node :: nodes => do
    if node.kind = .listItem then
      let item ← visitItem scope (i :: place) indent node
      return item :: (← visitItems scope place indent (i + 1) nodes)
    else visitItems scope place indent (i + 1) nodes

def visitItem (scope : Scope) (place : Place) (indent : String) : Node → RenderM String
  | ⟨_, _, content, _, _⟩ =>
    return itemMarkup (← visitItemParts scope place indent false 0 content)

def visitItemParts (scope : Scope) (place : Place) (indent : String) (started : Bool) (i : Nat) :
    List Node → RenderM (List String)
  | [] => return []
  | node :: nodes => do
    let text := String.join (← visit scope (i :: place) (partIndent indent started node.kind) node)
    let lines := partLines scope indent started node.kind text
    return lines ++
      (← visitItemParts scope place indent (started || !lines.isEmpty) (i + 1) nodes)

/-- Renders the tasks and the lists of tasks in a list of tasks; other children are left out. -/
def visitTasks (scope : Scope) (place : Place) (indent : String) (i : Nat) :
    List Node → RenderM (List String)
  | [] => return []
  | node :: nodes => do
    if node.kind = .taskItem then
      let text ← visitContent scope (i :: place) node
      return taskMarkup scope indent node text :: (← visitTasks scope place indent (i + 1) nodes)
    else if node.kind = .taskList then
      let nested := String.join (← visit scope (i :: place) (indent ++ "  ") node)
      return Text.trimLineStart nested :: (← visitTasks scope place indent (i + 1) nodes)
    else visitTasks scope place indent (i + 1) nodes

def visitRows (scope : Scope) (place : Place) (i : Nat) : List Node → RenderM (List String)
  | [] => return []
  | node :: nodes => do
    let row ← visitRow scope (i :: place) node
    return row :: (← visitRows scope place (i + 1) nodes)

def visitRow (scope : Scope) (place : Place) : Node → RenderM String
  | ⟨_, _, content, _, _⟩ => return rowMarkup (← visitCells scope place 0 content)

def visitCells (scope : Scope) (place : Place) (i : Nat) : List Node → RenderM (List String)
  | [] => return []
  | node :: nodes => do
    let cell ← visitCell scope (i :: place) node
    return Cell.markup node cell :: (← visitCells scope place (i + 1) nodes)

def visitCell (scope : Scope) (place : Place) : Node → RenderM Cell
  | ⟨_, _, content, _, _⟩ => return Cell.ofParts (← visitParts scope.cell place 0 content)

def visitParts (scope : Scope) (place : Place) (i : Nat) :
    List Node → RenderM (List (Node.Kind × String))
  | [] => return []
  | node :: nodes => do
    let text := String.join (← visit scope (i :: place) "" node)
    return (node.kind, text) :: (← visitParts scope place (i + 1) nodes)

end

/-! ## Parts of a node -/

theorem visitContent_def (scope : Scope) (place : Place) (node : Node) :
    visitContent captions setting scope place node = do
      return String.join (← visitAll captions setting scope place "" 0 node.content) := by
  cases node; rfl

theorem visitItem_def (scope : Scope) (place : Place) (indent : String) (node : Node) :
    visitItem captions setting scope place indent node = do
      return itemMarkup (← visitItemParts captions setting scope place indent false 0 node.content) := by
  cases node; rfl

theorem visitRow_def (scope : Scope) (place : Place) (node : Node) :
    visitRow captions setting scope place node = do
      return rowMarkup (← visitCells captions setting scope place 0 node.content) := by
  cases node; rfl

theorem visitCell_def (scope : Scope) (place : Place) (node : Node) :
    visitCell captions setting scope place node = do
      return Cell.ofParts (← visitParts captions setting scope.cell place 0 node.content) := by
  cases node; rfl

end

end WikiPress.Render
