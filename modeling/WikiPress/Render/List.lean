import WikiPress.Document.Node
import WikiPress.Render.Memory

/-!
# Lists

Markers and lines of list items. A marker is as long as its list is deep; nested content is set in by
two blanks a level, except that a table cell starts at its own margin.
-/

namespace WikiPress.Render

def repeated (n : Nat) (c : Char) : String :=
  .ofList (List.replicate n c)

def marker (scope : Scope) : String :=
  repeated (max 1 scope.listDepth) (if scope.bulleted then '*' else '.')

/-- What stands left of the marker. -/
def margin (scope : Scope) (indent : String) : String :=
  if scope.inCell then "" else indent

def openingLine (scope : Scope) (indent text : String) : String :=
  margin scope indent ++ marker scope ++ " " ++ Text.trimEnd text

def bareMarker (scope : Scope) (indent : String) : String :=
  margin scope indent ++ marker scope

/-! ## Items -/

/-- The margin for the lists in a part of an item. A list that does not come first is set in. -/
def partIndent (indent : String) (started : Bool) (kind : Node.Kind) : String :=
  if kind.isList then if started then indent ++ "  " else indent else ""

/-- The lines of a part of an item. The marker goes before what comes first; a part with nothing to
see is left out, unless it is a paragraph or a list. -/
def partLines (scope : Scope) (indent : String) (started : Bool) (kind : Node.Kind) (text : String) :
    List String :=
  if kind = .paragraph ∧ !started then [openingLine scope indent text]
  else if kind.isList ∧ !started then
    [bareMarker scope indent ++ "\n" ++ Text.trimLineStart text]
  else if kind.isList then [Text.trimLineStart text]
  else
    let trimmed := Text.trimEnd (Text.trimLineStart text)
    if trimmed = "" then []
    else if started then [indent ++ "  " ++ trimmed]
    else [bareMarker scope indent, indent ++ "  " ++ trimmed]

def itemMarkup (lines : List String) : String :=
  String.intercalate "\n" lines

/-! ## Tasks -/

def checkbox (node : Node) : String :=
  if node.text? "state" = some "DONE" then "[x]" else "[ ]"

def taskMarkup (scope : Scope) (indent : String) (node : Node) (text : String) : String :=
  margin scope indent ++ repeated (max 1 scope.listDepth) '*' ++ " " ++ checkbox node ++ " " ++
    Text.trim text

/-! ## Lists -/

/-- The outermost list is set apart by blank lines; lists in lists and in cells are not. -/
def listMarkup (scope : Scope) (items : List String) : List String :=
  if items.isEmpty then []
  else
    let joined := String.intercalate "\n" items
    if scope.listDepth = 0 ∧ !scope.inCell then ["\n" ++ joined ++ "\n\n"] else ["\n" ++ joined]

end WikiPress.Render
