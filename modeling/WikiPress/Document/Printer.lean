import WikiPress.Document.Node
import WikiPress.Json.Printer

/-!
# Printing of nodes

The one-line JSON text of a node, its type first. Fields that hold nothing are left out.
-/

namespace WikiPress

open Json (Layout stringChars)

/-- A member after the first one, left out when the list it comes from is empty. -/
def memberUnlessEmpty {α : Type} (key : String) (items : List α) (chars : List Char) : List Char :=
  if items.isEmpty then [] else ',' :: stringChars key ++ ':' :: chars

def attrChars (attrs : Json.Fields) : List Char :=
  memberUnlessEmpty "attrs" attrs ((Json.Value.object attrs).chars .compact 0)

def commaSeparated (items : List (List Char)) : List Char :=
  List.intercalate [','] items

def Mark.chars (mark : Mark) : List Char :=
  '\x7b' :: stringChars "type" ++ ':' :: stringChars mark.type ++ attrChars mark.attrs ++ ['\x7d']

namespace Node

mutual

def chars : Node → List Char
  | ⟨type, attrs, content, marks, text⟩ =>
    '\x7b' :: stringChars "type" ++ ':' :: stringChars type ++ attrChars attrs ++
      memberUnlessEmpty "content" content ('[' :: commaSeparated (charsOfAll content) ++ [']']) ++
      memberUnlessEmpty "marks" marks ('[' :: commaSeparated (marks.map Mark.chars) ++ [']']) ++
      (match text with
       | none => []
       | some s => ',' :: stringChars "text" ++ ':' :: stringChars s) ++
      ['\x7d']

def charsOfAll : List Node → List (List Char)
  | [] => []
  | node :: nodes => chars node :: charsOfAll nodes

end

def compact (node : Node) : String :=
  .ofList (chars node)

end Node

end WikiPress
