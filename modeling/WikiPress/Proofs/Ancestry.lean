import WikiPress.Proofs.Walk
import WikiPress.Proofs.Rule

/-!
# The ancestors of a node

Rendering without a scope: each node is told what its ancestors were rendered as, and its scope is worked out from
them. It gives what a walk gives that carries a scope along and changes it (`render_of_ancestors`).
-/

namespace WikiPress.Render

/-! ## Scopes of ancestors -/

def isCell (kind : Node.Kind) : Bool :=
  kind = .tableCell || kind = .tableHeader

/-- The scope of a node, from what its ancestors were rendered as, the nearest first. -/
def scopeOf (ancestors : List Node.Kind) : Scope where
  listDepth := ancestors.countP Node.Kind.isList
  bulleted := ancestors.find? Node.Kind.isList != some .orderedList
  inCell := ancestors.any isCell

theorem scopeOf_nil : scopeOf [] = {} := rfl

section
variable (kind : Node.Kind) (ancestors : List Node.Kind)

theorem scopeOf_list (h : kind.isList = true) :
    scopeOf (kind :: ancestors) = (scopeOf ancestors).inList (kind != .orderedList) := by
  have hcell : isCell kind = false := by cases kind <;> first | rfl | cases h
  simp [scopeOf, Scope.inList, h, hcell, bne]

theorem scopeOf_cell (h : isCell kind = true) : scopeOf (kind :: ancestors) = (scopeOf ancestors).cell := by
  have hlist : kind.isList = false := by cases kind <;> first | rfl | cases h
  simp [scopeOf, Scope.cell, h, hlist]

theorem scopeOf_other (hlist : kind.isList = false) (hcell : isCell kind = false) :
    scopeOf (kind :: ancestors) = scopeOf ancestors := by
  simp [scopeOf, hlist, hcell]

end

namespace Rule

/-- The scope of what is in a node, by the rule of the node. -/
def inner (scope : Scope) : Rule → Scope
  | .list bulleted => scope.inList bulleted
  | .tasks => scope.inList true
  | .cell => scope.cell
  | _ => scope

theorem inner_ofMacro {setting : Setting} {position : Macro.Position} {node : Node} (scope : Scope) :
    (ofMacro setting position node).inner scope = scope := by
  rcases ofMacro_cases rfl with ⟨handler, -, h⟩ | ⟨-, h⟩ <;> rw [h] <;> rfl

theorem inner_ofNode (setting : Setting) (ancestors : List Node.Kind) (indent : String) (node : Node) :
    (ofNode setting (scopeOf ancestors) indent node).inner (scopeOf ancestors) =
      scopeOf (node.kind :: ancestors) := by
  unfold ofNode
  cases hk : node.kind with
  | bulletList => exact (scopeOf_list .bulletList ancestors rfl).symm
  | orderedList => exact (scopeOf_list .orderedList ancestors rfl).symm
  | taskList => exact (scopeOf_list .taskList ancestors rfl).symm
  | tableCell => exact (scopeOf_cell .tableCell ancestors rfl).symm
  | tableHeader => exact (scopeOf_cell .tableHeader ancestors rfl).symm
  | blockMacro => exact (inner_ofMacro _).trans (scopeOf_other .blockMacro ancestors rfl rfl).symm
  | inlineMacro => exact (inner_ofMacro _).trans (scopeOf_other .inlineMacro ancestors rfl rfl).symm
  | mediaSingle =>
    rw [scopeOf_other .mediaSingle ancestors rfl rfl]
    cases firstMedia? node.content <;> rfl
  | _ => exact (scopeOf_other _ ancestors (by rfl) (by rfl)).symm

end Rule

/-! ## Rendering under ancestors -/

namespace Under

variable (setting : Setting)

mutual

/-- Renders a node under ancestors, each given by what it was rendered as. The children of a table count as rows,
and those of a row as cells, whatever their types. -/
def render (ancestors : List Node.Kind) (place : Place) (indent : String) : Node → RenderM (List String)
  | ⟨type, attrs, content, marks, text⟩ => do
    if ← takeSkip place then return []
    let kind := Node.Kind.ofType type
    match Rule.ofNode setting (scopeOf ancestors) indent ⟨type, attrs, content, marks, text⟩ with
    | .leaf leaf => renderLeaf setting (scopeOf ancestors) ⟨type, attrs, content, marks, text⟩ leaf
    | .wrap markup => return markup (String.join (← renderAll (kind :: ancestors) place "" 0 content))
    | .through indent notices =>
      noteAll notices
      renderAll (kind :: ancestors) place indent 0 content
    | .table => return [tableMarkup (← renderRows (kind :: ancestors) place 0 content)]
    | .row => return [rowMarkup (← renderCells (kind :: ancestors) place 0 content)]
    | .cell => return [(Cell.ofParts (← renderParts (kind :: ancestors) place 0 content)).text]
    | .list _ => return listMarkup (scopeOf ancestors) (← renderItems (kind :: ancestors) place indent 0 content)
    | .item => return [itemMarkup (← renderItemParts ancestors place indent false 0 content)]
    | .tasks => return listMarkup (scopeOf ancestors) (← renderTasks (kind :: ancestors) place indent 0 content)
    | .figure index media =>
      let caption ← renderCaption (kind :: ancestors) place 0 content
      skipCaption caption
      let image := "\n" ++ imageBlock setting.options media (caption.map Prod.snd)
      return image :: (← renderOthers (kind :: ancestors) place index 0 content)

def renderAll (ancestors : List Node.Kind) (place : Place) (indent : String) (i : Nat) :
    List Node → RenderM (List String)
  | [] => return []
  | node :: nodes => do
    let first ← render ancestors (i :: place) indent node
    return first ++ (← renderAll ancestors place indent (i + 1) nodes)

def renderOthers (ancestors : List Node.Kind) (place : Place) (index i : Nat) :
    List Node → RenderM (List String)
  | [] => return []
  | node :: nodes => do
    let first ← if i = index then pure [] else render ancestors (i :: place) "" node
    return first ++ (← renderOthers ancestors place index (i + 1) nodes)

def renderCaption (ancestors : List Node.Kind) (place : Place) (i : Nat) :
    List Node → RenderM (Option (Place × String))
  | [] => return none
  | node :: nodes =>
    if node.kind = .caption then return some (i :: place, ← renderContent (.caption :: ancestors) (i :: place) node)
    else renderCaption ancestors place (i + 1) nodes

def renderContent (ancestors : List Node.Kind) (place : Place) : Node → RenderM String
  | ⟨_, _, content, _, _⟩ => return String.join (← renderAll ancestors place "" 0 content)

def renderItems (ancestors : List Node.Kind) (place : Place) (indent : String) (i : Nat) :
    List Node → RenderM (List String)
  | [] => return []
  | node :: nodes => do
    if node.kind = .listItem then
      let item ← renderItem ancestors (i :: place) indent node
      return item :: (← renderItems ancestors place indent (i + 1) nodes)
    else renderItems ancestors place indent (i + 1) nodes

def renderItem (ancestors : List Node.Kind) (place : Place) (indent : String) : Node → RenderM String
  | ⟨_, _, content, _, _⟩ => return itemMarkup (← renderItemParts ancestors place indent false 0 content)

/-- Renders the parts of an item that has these ancestors. -/
def renderItemParts (ancestors : List Node.Kind) (place : Place) (indent : String) (started : Bool) (i : Nat) :
    List Node → RenderM (List String)
  | [] => return []
  | node :: nodes => do
    let text := String.join
      (← render (.listItem :: ancestors) (i :: place) (partIndent indent started node.kind) node)
    let lines := partLines (scopeOf ancestors) indent started node.kind text
    return lines ++ (← renderItemParts ancestors place indent (started || !lines.isEmpty) (i + 1) nodes)

def renderTasks (ancestors : List Node.Kind) (place : Place) (indent : String) (i : Nat) :
    List Node → RenderM (List String)
  | [] => return []
  | node :: nodes => do
    if node.kind = .taskItem then
      let text ← renderContent (.taskItem :: ancestors) (i :: place) node
      return taskMarkup (scopeOf ancestors) indent node text ::
        (← renderTasks ancestors place indent (i + 1) nodes)
    else if node.kind = .taskList then
      let nested := String.join (← render ancestors (i :: place) (indent ++ "  ") node)
      return Text.trimLineStart nested :: (← renderTasks ancestors place indent (i + 1) nodes)
    else renderTasks ancestors place indent (i + 1) nodes

def renderRows (ancestors : List Node.Kind) (place : Place) (i : Nat) : List Node → RenderM (List String)
  | [] => return []
  | node :: nodes => do
    let row ← renderRow (.tableRow :: ancestors) (i :: place) node
    return row :: (← renderRows ancestors place (i + 1) nodes)

def renderRow (ancestors : List Node.Kind) (place : Place) : Node → RenderM String
  | ⟨_, _, content, _, _⟩ => return rowMarkup (← renderCells ancestors place 0 content)

def renderCells (ancestors : List Node.Kind) (place : Place) (i : Nat) : List Node → RenderM (List String)
  | [] => return []
  | node :: nodes => do
    let cell ← renderCell (.tableCell :: ancestors) (i :: place) node
    return Cell.markup node cell :: (← renderCells ancestors place (i + 1) nodes)

def renderCell (ancestors : List Node.Kind) (place : Place) : Node → RenderM Cell
  | ⟨_, _, content, _, _⟩ => return Cell.ofParts (← renderParts ancestors place 0 content)

def renderParts (ancestors : List Node.Kind) (place : Place) (i : Nat) :
    List Node → RenderM (List (Node.Kind × String))
  | [] => return []
  | node :: nodes => do
    let text := String.join (← render ancestors (i :: place) "" node)
    return (node.kind, text) :: (← renderParts ancestors place (i + 1) nodes)

end

/-! ## With ancestors and with a scope -/

mutual

theorem render_eq : ∀ (node : Node) (ancestors : List Node.Kind) (place : Place) (indent : String),
    render setting ancestors place indent node = visit .marked setting (scopeOf ancestors) place indent node
  | ⟨type, attrs, content, marks, text⟩, ancestors, place, indent => by
    simp only [render, visit]
    refine congrArg (takeSkip place >>= ·) (funext fun skipped => ?_)
    cases skipped with
    | true => rfl
    | false =>
      have hinner := Rule.inner_ofNode setting ancestors indent ⟨type, attrs, content, marks, text⟩
      -- What the rule makes of the scope is the scope of one more ancestor.
      generalize Rule.ofNode setting (scopeOf ancestors) indent _ = rule at hinner ⊢
      have hscope : scopeOf (Node.Kind.ofType type :: ancestors) = rule.inner (scopeOf ancestors) := hinner.symm
      cases rule with
      | leaf leaf => rfl
      | wrap markup => simp only [renderAll_eq content, hscope]; rfl
      | through indent notices => simp only [renderAll_eq content, hscope]; rfl
      | table => simp only [renderRows_eq content, hscope]; rfl
      | row => simp only [renderCells_eq content, hscope]; rfl
      | cell => simp only [renderParts_eq content, hscope]; rfl
      | list bulleted => simp only [renderItems_eq content, hscope]; rfl
      | item => simp only [renderItemParts_eq content]
      | tasks => simp only [renderTasks_eq content, hscope]; rfl
      | figure index media => simp only [renderCaption_eq content, renderOthers_eq content, hscope]; rfl

theorem renderAll_eq : ∀ (nodes : List Node) (ancestors : List Node.Kind) (place : Place) (indent : String) (i : Nat),
    renderAll setting ancestors place indent i nodes =
      visitAll .marked setting (scopeOf ancestors) place indent i nodes
  | [], _, _, _, _ => rfl
  | node :: nodes, ancestors, place, indent, i => by
    simp only [renderAll, visitAll, render_eq node, renderAll_eq nodes]

theorem renderOthers_eq : ∀ (nodes : List Node) (ancestors : List Node.Kind) (place : Place) (index i : Nat),
    renderOthers setting ancestors place index i nodes =
      visitOthers .marked setting (scopeOf ancestors) place (fun i => i = index) i nodes
  | [], _, _, _, _ => rfl
  | node :: nodes, ancestors, place, index, i => by
    simp only [renderOthers, visitOthers, render_eq node, renderOthers_eq nodes, decide_eq_true_eq]

theorem renderCaption_eq : ∀ (nodes : List Node) (ancestors : List Node.Kind) (place : Place) (i : Nat),
    renderCaption setting ancestors place i nodes =
      visitCaption .marked setting (scopeOf ancestors) place i nodes
  | [], _, _, _ => rfl
  | node :: nodes, ancestors, place, i => by
    simp only [renderCaption, visitCaption, renderContent_eq node, renderCaption_eq nodes,
      scopeOf_other .caption ancestors rfl rfl]

theorem renderContent_eq : ∀ (node : Node) (ancestors : List Node.Kind) (place : Place),
    renderContent setting ancestors place node = visitContent .marked setting (scopeOf ancestors) place node
  | ⟨_, _, content, _, _⟩, ancestors, place => by
    simp only [renderContent, visitContent, renderAll_eq content]

theorem renderItems_eq : ∀ (nodes : List Node) (ancestors : List Node.Kind) (place : Place) (indent : String)
    (i : Nat), renderItems setting ancestors place indent i nodes =
      visitItems .marked setting (scopeOf ancestors) place indent i nodes
  | [], _, _, _, _ => rfl
  | node :: nodes, ancestors, place, indent, i => by
    simp only [renderItems, visitItems, renderItem_eq node, renderItems_eq nodes]

theorem renderItem_eq : ∀ (node : Node) (ancestors : List Node.Kind) (place : Place) (indent : String),
    renderItem setting ancestors place indent node =
      visitItem .marked setting (scopeOf ancestors) place indent node
  | ⟨_, _, content, _, _⟩, ancestors, place, indent => by
    simp only [renderItem, visitItem, renderItemParts_eq content]

theorem renderItemParts_eq : ∀ (nodes : List Node) (ancestors : List Node.Kind) (place : Place) (indent : String)
    (started : Bool) (i : Nat), renderItemParts setting ancestors place indent started i nodes =
      visitItemParts .marked setting (scopeOf ancestors) place indent started i nodes
  | [], _, _, _, _, _ => rfl
  | node :: nodes, ancestors, place, indent, started, i => by
    simp only [renderItemParts, visitItemParts, render_eq node, renderItemParts_eq nodes,
      scopeOf_other .listItem ancestors rfl rfl]

theorem renderTasks_eq : ∀ (nodes : List Node) (ancestors : List Node.Kind) (place : Place) (indent : String)
    (i : Nat), renderTasks setting ancestors place indent i nodes =
      visitTasks .marked setting (scopeOf ancestors) place indent i nodes
  | [], _, _, _, _ => rfl
  | node :: nodes, ancestors, place, indent, i => by
    simp only [renderTasks, visitTasks, renderContent_eq node, render_eq node, renderTasks_eq nodes,
      scopeOf_other .taskItem ancestors rfl rfl]

theorem renderRows_eq : ∀ (nodes : List Node) (ancestors : List Node.Kind) (place : Place) (i : Nat),
    renderRows setting ancestors place i nodes = visitRows .marked setting (scopeOf ancestors) place i nodes
  | [], _, _, _ => rfl
  | node :: nodes, ancestors, place, i => by
    simp only [renderRows, visitRows, renderRow_eq node, renderRows_eq nodes,
      scopeOf_other .tableRow ancestors rfl rfl]

theorem renderRow_eq : ∀ (node : Node) (ancestors : List Node.Kind) (place : Place),
    renderRow setting ancestors place node = visitRow .marked setting (scopeOf ancestors) place node
  | ⟨_, _, content, _, _⟩, ancestors, place => by
    simp only [renderRow, visitRow, renderCells_eq content]

theorem renderCells_eq : ∀ (nodes : List Node) (ancestors : List Node.Kind) (place : Place) (i : Nat),
    renderCells setting ancestors place i nodes = visitCells .marked setting (scopeOf ancestors) place i nodes
  | [], _, _, _ => rfl
  | ⟨type, attrs, content, marks, text⟩ :: nodes, ancestors, place, i => by
    have hparts := renderParts_eq content (.tableCell :: ancestors) (i :: place) 0
    rw [scopeOf_cell .tableCell ancestors rfl] at hparts
    simp only [renderCells, visitCells, renderCell, visitCell, hparts, renderCells_eq nodes]

theorem renderParts_eq : ∀ (nodes : List Node) (ancestors : List Node.Kind) (place : Place) (i : Nat),
    renderParts setting ancestors place i nodes = visitParts .marked setting (scopeOf ancestors) place i nodes
  | [], _, _, _ => rfl
  | node :: nodes, ancestors, place, i => by
    simp only [renderParts, visitParts, render_eq node, renderParts_eq nodes]

end

end Under

/-- **The scope is that of the ancestors.** A walk that starts outside of all lists and cells gives the fragments
and the memory that rendering under no ancestors gives, and ends in the scope in which it began. -/
theorem render_of_ancestors (setting : Setting) (memory : Memory) (place : Place) (indent : String) (node : Node) :
    (Walk.render place indent node).run { setting, memory } =
      let rendered := (Under.render setting [] place indent node).run memory
      (rendered.1, { setting, memory := rendered.2 }) := by
  rw [Walk.render_eq, Under.render_eq, scopeOf_nil]
  rfl

end WikiPress.Render
