import WikiPress.Binary64.Shortest
import WikiPress.Dictionary
import WikiPress.Text.Digits
import WikiPress.Text.Quoted
import WikiPress.Toml.Document

/-!
# Configuration values

What the layers of a configuration assign, and where it came from. Keys do not know upper from lower
case. Laying a value over another one merges tables and replaces all else.
-/

namespace WikiPress.Config

inductive Scalar where
  | none
  | boolean (b : Bool)
  | integer (n : Int)
  | float (x : Binary64)
  | string (s : String)
  deriving DecidableEq, Repr

/-- A value with the file that it was read from, if it was. -/
inductive Value where
  | scalar (file : Option String) (s : Scalar)
  | array (file : Option String) (items : List Value)
  | table (file : Option String) (entries : List (String × Value))
  deriving Repr

namespace Value

def absent : Value :=
  .scalar Option.none .none

def emptyTable : Value :=
  .table Option.none []

def file : Value → Option String
  | .scalar file _ => file
  | .array file _ => file
  | .table file _ => file

def entries : Value → List (String × Value)
  | .table _ entries => entries
  | _ => []

/-- A value as a table; one that is none counts as an empty table. -/
def asTable : Value → Value
  | .table file entries => .table file entries
  | _ => emptyTable

def asItems : Value → List Value
  | .array _ items => items
  | _ => []

def get? (key : String) (v : Value) : Option Value :=
  v.entries.lookup key

end Value

/-- Keys are compared in lower case. -/
def foldKey (key : String) : String :=
  .ofList (key.toList.map Char.toLower)

/-! ## Merging -/

def putEntry (key : String) (v target : Value) : Value :=
  match target.asTable with
  | .table file entries => .table file (Dictionary.insert key v entries)
  | other => other

mutual

/-- Lays a value over what stands under a key. Only tables are merged. -/
def setKey (key : String) : Value → Value → Value
  | .table _ incoming, target =>
    let key := foldKey key
    putEntry key (mergeInto incoming ((target.asTable.get? key).getD .emptyTable)) target
  | .array file items, target => putEntry (foldKey key) (.array file items) target
  | .scalar file s, target => putEntry (foldKey key) (.scalar file s) target

def mergeInto : List (String × Value) → Value → Value
  | [], target => target
  | (key, v) :: rest, target => mergeInto rest (setKey key v target)

end

/-! ## Paths of keys -/

inductive KeyStep where
  | key (name : String)
  | index (n : Int)
  deriving DecidableEq, Repr

def isNameChar (c : Char) : Bool :=
  c.isAlpha || Text.isDigit c || c = ' ' || c = '_' || c = '-'

/-- Reads the steps after the first name. -/
def stepsAfter : (fuel : Nat) → List Char → Option (List KeyStep)
  | _, [] => some []
  | 0, _ => none
  | fuel + 1, '.' :: cs =>
    let name := cs.takeWhile isNameChar
    if name.isEmpty then none
    else (stepsAfter fuel (cs.dropWhile isNameChar)).map (.key (.ofList name) :: ·)
  | fuel + 1, '[' :: cs =>
    let (negative, cs) :=
      match cs with
      | '-' :: cs => (true, cs)
      | cs => (false, cs)
    let digits := cs.takeWhile Text.isDigit
    let n : Int := Text.decimalValue digits
    match cs.dropWhile Text.isDigit with
    | ']' :: rest =>
      if digits.isEmpty then none
      else (stepsAfter fuel rest).map (.index (if negative then -n else n) :: ·)
    | _ => none
  | _ + 1, _ :: _ => none

/-- Reads a path such as `a.b[0].c`. -/
def keySteps? (s : String) : Option (List KeyStep) :=
  let cs := s.toList
  let name := cs.takeWhile isNameChar
  if name.isEmpty then none
  else (stepsAfter cs.length (cs.dropWhile isNameChar)).map (.key (.ofList name) :: ·)

/-- The place that an index means; a negative one counts from the end. -/
def indexIn (n : Int) (length : Nat) : Nat :=
  if n < 0 then length - n.natAbs else n.toNat

/-- Changes the item at an index of what should be an array, which grows as needed. -/
def changeItem (n : Int) (f : Value → Value) (target : Value) : Value :=
  let items := target.asItems
  let i := indexIn n items.length
  let items := items ++ List.replicate (i + 1 - items.length) .absent
  .array (match target with | .array file _ => file | _ => Option.none) (items.modify i f)

/-- Lays a value over what a path leads to, and makes what is missing on the way. -/
def assign (v : Value) : List KeyStep → Value → Value
  | [], target => target
  | [.key name], target => setKey name v target
  | [.index n], target => changeItem n (fun _ => v) target
  | .key name :: steps, target =>
    let name := foldKey name
    putEntry name (assign v steps ((target.asTable.get? name).getD .absent)) target
  | .index n :: steps, target => changeItem n (assign v steps) target

/-! ## Values of files -/

mutual

def ofToml (file : Option String) : Toml.Value → Value
  | .string s => .scalar file (.string s)
  | .integer n => .scalar file (.integer n)
  | .float x => .scalar file (.float x)
  | .boolean b => .scalar file (.boolean b)
  | .moment s => .scalar file (.string s)
  | .array items => .array file (ofTomlItems file items)
  | .table entries => .table file (ofTomlEntries file entries)

def ofTomlItems (file : Option String) : List Toml.Value → List Value
  | [] => []
  | v :: vs => ofToml file v :: ofTomlItems file vs

def ofTomlEntries (file : Option String) : List (String × Toml.Value) → List (String × Value)
  | [] => []
  | (key, v) :: entries => (key, ofToml file v) :: ofTomlEntries file entries

end

/-- Lays the entries of a file over a configuration. A key at the top may be a path. -/
def mergeFile (entries : List (String × Value)) (root : Value) : Value :=
  entries.foldl (fun root (key, v) => assign v ((keySteps? key).getD [.key key]) root) root

end WikiPress.Config
