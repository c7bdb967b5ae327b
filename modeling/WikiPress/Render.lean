import WikiPress.Render.Visit
import WikiPress.Render.Walk

/-!
# Rendering

Single nodes and parts of nodes are rendered in any scope by a visit that marks captions; a whole document
is walked through.
-/

namespace WikiPress.Render

section
variable (setting : Setting)

def render (scope : Scope) (place : Place) (indent : String) (node : Node) : RenderM (List String) :=
  visit .marked setting scope place indent node

def renderAll (scope : Scope) (place : Place) (indent : String) (i : Nat) (nodes : List Node) :
    RenderM (List String) :=
  visitAll .marked setting scope place indent i nodes

def renderRow (scope : Scope) (place : Place) (node : Node) : RenderM String :=
  visitRow .marked setting scope place node

def renderCell (scope : Scope) (place : Place) (node : Node) : RenderM Cell :=
  visitCell .marked setting scope place node

/-- The markup of a text node, or what is in any other node. -/
def renderInline (scope : Scope) (place : Place) (node : Node) : RenderM String :=
  if node.kind = .text then renderText setting.options scope.inCell node
  else visitContent .marked setting scope place node

/-- Renders a node as a macro in a position, whatever its type. -/
def renderAsMacro (scope : Scope) (place : Place) (position : Macro.Position) (node : Node) :
    RenderM (List String) := do
  match setting.macros.find? position (Macro.keyOf node) with
  | some handler => renderMacro position node handler
  | none =>
    note (.macroWithoutHandler position.name (Macro.keyOf node))
    renderAll setting scope place "" 0 node.content

end

end WikiPress.Render
