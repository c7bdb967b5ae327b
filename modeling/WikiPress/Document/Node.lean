import WikiPress.Json.Value
import WikiPress.Text.Blank
import WikiPress.Text.Digits

/-!
# Document trees

The nodes of a wiki page and the marks on its texts. The type of a node is a word; `Kind` says what
the renderer makes of it.
-/

namespace WikiPress

structure Mark where
  type : String := ""
  attrs : Json.Fields := []
  deriving DecidableEq, Repr

/-- A node of a page. Only texts have a `text`, only texts have marks in a sensible page. -/
structure Node where
  type : String := ""
  attrs : Json.Fields := []
  content : List Node := []
  marks : List Mark := []
  text : Option String := none
  deriving Repr

inductive Node.Kind where
  | doc
  | paragraph
  | heading
  | text
  | hardBreak
  | rule
  | table
  | tableRow
  | tableCell
  | tableHeader
  | media
  | mediaSingle
  | mediaInline
  | mediaGroup
  | caption
  | bulletList
  | orderedList
  | listItem
  | taskList
  | taskItem
  | codeBlock
  | panel
  | blockMacro
  | inlineMacro
  | mention
  | inlineCard
  | emoji
  | unknown
  deriving DecidableEq, Repr

inductive Mark.Kind where
  | strong
  | emphasis
  | code
  | strike
  | underline
  | subscript
  | superscript
  | link
  | other
  deriving DecidableEq, Repr

/-! ## Marks -/

namespace Mark

def text? (mark : Mark) (key : String) : Option String :=
  mark.attrs.text? key

def kind (mark : Mark) : Kind :=
  match mark.type with
  | "strong" => .strong
  | "em" => .emphasis
  | "code" => .code
  | "strike" => .strike
  | "underline" => .underline
  | "subsup" =>
    match mark.text? "type" with
    | some "sub" => .subscript
    | some "sup" => .superscript
    | _ => .other
  | "link" => .link
  | _ => .other

def href? (mark : Mark) : Option String :=
  mark.text? "href"

end Mark

/-! ## Nodes -/

namespace Node

def Kind.ofType (type : String) : Kind :=
  match type with
  | "doc" => .doc
  | "paragraph" => .paragraph
  | "heading" => .heading
  | "text" => .text
  | "hardBreak" => .hardBreak
  | "rule" => .rule
  | "table" => .table
  | "tableRow" => .tableRow
  | "tableCell" => .tableCell
  | "tableHeader" => .tableHeader
  | "media" => .media
  | "mediaSingle" => .mediaSingle
  | "mediaInline" => .mediaInline
  | "mediaGroup" => .mediaGroup
  | "caption" => .caption
  | "bulletList" => .bulletList
  | "orderedList" => .orderedList
  | "listItem" => .listItem
  | "taskList" => .taskList
  | "taskItem" => .taskItem
  | "codeBlock" => .codeBlock
  | "panel" => .panel
  | "extension" => .blockMacro
  | "bodiedExtension" => .blockMacro
  | "inlineExtension" => .inlineMacro
  | "mention" => .mention
  | "inlineCard" => .inlineCard
  | "emoji" => .emoji
  | _ => .unknown

def Kind.isList : Kind → Bool
  | .bulletList | .orderedList | .taskList => true
  | _ => false

def kind (node : Node) : Kind :=
  .ofType node.type

def attr? (node : Node) (key : String) : Option Json.Value :=
  node.attrs.lookup key

def text? (node : Node) (key : String) : Option String :=
  node.attrs.text? key

/-- A text attribute that is there and not empty. -/
def someText? (node : Node) (key : String) : Option String :=
  (node.text? key).filter (· != "")

/-- A number attribute, which may be written as a text. -/
def unsigned64? (node : Node) (key : String) : Option Nat :=
  match node.attr? key with
  | some (.number n) => some n.toUnsigned64
  | some (.string s) => Text.unsigned64? (Text.trim s)
  | _ => none

/-- The text of a text node, empty for every other. -/
def ownText (node : Node) : String :=
  node.text.getD ""

mutual

/-- The texts of a node and of all below it, in order, without marks. -/
def plainText : Node → String
  | ⟨_, _, content, _, text⟩ => text.getD "" ++ plainTexts content

def plainTexts : List Node → String
  | [] => ""
  | node :: nodes => plainText node ++ plainTexts nodes

end

/-! ## Equality -/

mutual

def beq : Node → Node → Bool
  | ⟨type, attrs, content, marks, text⟩, ⟨type', attrs', content', marks', text'⟩ =>
    type == type' && attrs == attrs' && beqs content content' && marks == marks' && text == text'

def beqs : List Node → List Node → Bool
  | [], [] => true
  | x :: xs, y :: ys => beq x y && beqs xs ys
  | _, _ => false

end

mutual

theorem beq_iff : ∀ x y : Node, beq x y = true ↔ x = y
  | ⟨_, _, content, _, _⟩, ⟨_, _, content', _, _⟩ => by
    simp [beq, beqs_iff content content', and_assoc]

theorem beqs_iff : ∀ xs ys : List Node, beqs xs ys = true ↔ xs = ys
  | [], ys => by cases ys <;> simp [beqs]
  | x :: xs, ys => by
    cases ys with
    | nil => simp [beqs]
    | cons y ys => simp [beqs, beq_iff x y, beqs_iff xs ys]

end

instance : DecidableEq Node := fun x y =>
  decidable_of_iff (beq x y = true) (beq_iff x y)

end Node

end WikiPress
