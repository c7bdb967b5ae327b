import WikiPress.Document.Node
import WikiPress.Json.Reading

/-!
# Reading documents

Nodes and marks are read from JSON values and from source texts. Every field may be absent or `null`,
other fields are passed over, and a node may also be written as the array of its fields.
-/

namespace WikiPress

open Json (Value Fields Cause Found Expected Reader)

/-! ## From values -/

namespace Json.Value

def found : Value → Found
  | .null => .null
  | .boolean b => .boolean b
  | .number n => .number n
  | .string s => .string s
  | .array _ => .array
  | .object _ => .object

def refuse {α : Type} (expected : Expected) (value : Value) : Except Cause α :=
  .error (.wrongType value.found expected)

/-- The text in a field that may be absent; absent and `null` are the default. -/
def textField (default : String) : Option Value → Except Cause String
  | none | some .null => .ok default
  | some (.string s) => .ok s
  | some value => value.refuse .text

def optionalTextField : Option Value → Except Cause (Option String)
  | none | some .null => .ok none
  | some (.string s) => .ok (some s)
  | some value => value.refuse .text

def fieldsField : Option Value → Except Cause Fields
  | none | some .null => .ok []
  | some (.object fields) => .ok fields
  | some value => value.refuse .object

end Json.Value

namespace Mark

def ofValue : Value → Except Cause Mark
  | .object fields => do
    let attrs ← Value.fieldsField (fields.lookup "attrs")
    let type ← Value.textField "" (fields.lookup "type")
    .ok ⟨type, attrs⟩
  | .array items => do
    let type ← Value.textField "" items[0]?
    let attrs ← Value.fieldsField items[1]?
    if 2 < items.length then .error (.tooLong items.length)
    .ok ⟨type, attrs⟩
  | value => value.refuse (.record "Mark")

def listOfValues : List Value → Except Cause (List Mark)
  | [] => .ok []
  | value :: values => do
    let mark ← ofValue value
    let marks ← listOfValues values
    .ok (mark :: marks)

def listOfField : Option Value → Except Cause (List Mark)
  | none | some .null => .ok []
  | some (.array items) => listOfValues items
  | some value => value.refuse .array

end Mark

namespace Node

mutual

/-- Reads a node from a value. The fields of an object are read in the order of their keys, those of an
array in their own, and the first complaint counts. -/
def ofValue : Value → Except Cause Node
  | .object fields => do
    let attrs ← Value.fieldsField (fields.lookup "attrs")
    let content ← contentOfFields fields
    let marks ← Mark.listOfField (fields.lookup "marks")
    let text ← Value.optionalTextField (fields.lookup "text")
    let type ← Value.textField "" (fields.lookup "type")
    .ok ⟨type, attrs, content, marks, text⟩
  | .array items => do
    let type ← Value.textField "" items[0]?
    let attrs ← Value.fieldsField items[1]?
    let content ← contentOfItems 2 items
    let marks ← Mark.listOfField items[3]?
    let text ← Value.optionalTextField items[4]?
    if 5 < items.length then .error (.tooLong items.length)
    .ok ⟨type, attrs, content, marks, text⟩
  | value => value.refuse (.record "Node")

def contentOfFields : List (String × Value) → Except Cause (List Node)
  | [] => .ok []
  | (key, value) :: fields => if key = "content" then contentOf value else contentOfFields fields

def contentOfItems (index : Nat) : List Value → Except Cause (List Node)
  | [] => .ok []
  | value :: values =>
    match index with
    | 0 => contentOf value
    | index + 1 => contentOfItems index values

def contentOf : Value → Except Cause (List Node)
  | .null => .ok []
  | .array items => listOfValues items
  | value => value.refuse .array

def listOfValues : List Value → Except Cause (List Node)
  | [] => .ok []
  | value :: values => do
    let node ← ofValue value
    let nodes ← listOfValues values
    .ok (node :: nodes)

end

end Node

/-! ## From source texts -/

namespace Mark

def reader : Nat → Reader Mark :=
  Json.record "Mark"
    [.of "type" (fun _ => Json.orElse "" Json.text) fun type mark => { mark with type },
     .of "attrs" (fun levels => Json.orElse [] (Json.dictionary Json.value levels))
       fun attrs mark => { mark with attrs }]
    {}

end Mark

namespace Node

def fieldsWith (nodes : Reader (List Node)) : List (Json.Field Node) :=
  [.of "type" (fun _ => Json.orElse "" Json.text) fun type node => { node with type },
   .of "attrs" (fun levels => Json.orElse [] (Json.dictionary Json.value levels))
     fun attrs node => { node with attrs },
   .of "content" (fun _ => Json.orElse [] nodes) fun content node => { node with content },
   .of "marks" (fun levels => Json.orElse [] (Json.list Mark.reader levels))
     fun marks node => { node with marks },
   .of "text" (fun _ => Json.optional Json.text) fun text node => { node with text }]

mutual

/-- Reads a node that lies so deep that only some levels are left below it. -/
def reader : Nat → Reader Node
  | 0 => Json.record "Node" (fieldsWith (Json.refuse .array)) {} 0
  | levels + 1 => Json.record "Node" (fieldsWith (listReader levels)) {} (levels + 1)

def listReader : Nat → Reader (List Node)
  | 0 => Json.list (fun _ => Json.refuse (.record "Node")) 0
  | levels + 1 => Json.list (fun _ => reader levels) (levels + 1)

end

def ofText (s : String) : Except String Node :=
  Json.readText (reader Json.deepest) s

/-! ## To values -/

end Node

/-- A field that is left out when it is empty. -/
def Json.Value.unlessEmpty {α : Type} (key : String) (items : List α) (value : Value) : Fields :=
  if items.isEmpty then [] else [(key, value)]

def Mark.toValue (mark : Mark) : Value :=
  .object (Value.unlessEmpty "attrs" mark.attrs (.object mark.attrs) ++ [("type", .string mark.type)])

namespace Node

mutual

/-- The value of a node: its type always, and its other fields where they hold something. -/
def toValue : Node → Value
  | ⟨type, attrs, content, marks, text⟩ =>
    .object (Value.unlessEmpty "attrs" attrs (.object attrs) ++
      Value.unlessEmpty "content" content (.array (toValues content)) ++
      Value.unlessEmpty "marks" marks (.array (marks.map Mark.toValue)) ++
      text.toList.map (fun s => ("text", .string s)) ++
      [("type", .string type)])

def toValues : List Node → List Value
  | [] => []
  | node :: nodes => toValue node :: toValues nodes

end

end Node

end WikiPress
