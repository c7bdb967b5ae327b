import WikiPress.Document.Node
import WikiPress.Text.Search

/-!
# Table cells

A cell is simple when it has one line and no block that needs lines of its own; in a simple cell every
bar is escaped, once. Other cells are marked so that their content is read as blocks.
-/

namespace WikiPress.Render

structure Cell where
  text : String
  complex : Bool
  deriving DecidableEq, Repr

/-- Blocks that cannot stand in a simple cell. -/
def isComplex : Node.Kind → Bool
  | .bulletList | .orderedList | .taskList | .codeBlock | .panel => true
  | _ => false

/-- Takes one of two backslashes before a bar back, from left to right. -/
def mergeEscapes : List Char → List Char
  | '\\' :: '\\' :: '|' :: cs => '\\' :: '|' :: mergeEscapes cs
  | c :: cs => c :: mergeEscapes cs
  | [] => []

/-- Escapes the bars that are not escaped yet. -/
def escapeBars (s : String) : String :=
  .ofList (mergeEscapes (Text.replaceChar '|' ['\\', '|'] s.toList))

/-- The lines of a cell, from the kinds and the markup of what is in it. A block that needs lines of
its own is set off from a paragraph before it. -/
def cellLines (started afterParagraph : Bool) : List (Node.Kind × String) → List String
  | [] => []
  | (kind, text) :: parts =>
    let gap := if isComplex kind ∧ afterParagraph ∧ started then [""] else []
    let trimmed := Text.trim text
    let own := if trimmed = "" then [] else [trimmed]
    gap ++ own ++
      cellLines (started || !(gap ++ own).isEmpty) (kind = .paragraph) parts

def Cell.ofParts (parts : List (Node.Kind × String)) : Cell :=
  let text := String.intercalate "\n" (cellLines false false parts)
  let hasComplex := parts.any fun (kind, _) => isComplex kind
  let text := if hasComplex then text else escapeBars text
  ⟨text, hasComplex || text.toList.contains '\n'⟩

def spanOf? (node : Node) (key : String) : Option Nat :=
  (node.unsigned64? key).filter (1 < ·)

def spanText (node : Node) : String :=
  match spanOf? node "colspan", spanOf? node "rowspan" with
  | some columns, some rows => toString columns ++ "." ++ toString rows ++ "+"
  | some columns, none => toString columns ++ "+"
  | none, some rows => "." ++ toString rows ++ "+"
  | none, none => ""

def Cell.markup (node : Node) (cell : Cell) : String :=
  spanText node ++ (if cell.complex then "a" else "") ++ "| " ++ cell.text

/-! ## Rows and tables -/

def rowMarkup (cells : List String) : String :=
  String.intercalate " " cells ++ "\n"

def tableMarkup (rows : List String) : String :=
  "|===\n" ++ String.join rows ++ "|===\n"

end WikiPress.Render
