import WikiPress.Binary64
import WikiPress.Dictionary

/-!
# TOML values

The values of the configuration format, and the tables that are built while a file is read: a table
knows how it came to be, since that decides whether it may be written to again.
-/

namespace WikiPress.Toml

inductive Value where
  | string (s : String)
  | integer (n : Int)
  | float (x : Binary64)
  | boolean (b : Bool)
  /-- A date, a time of day or both, in the form in which they are printed. -/
  | moment (text : String)
  | array (items : List Value)
  | table (entries : List (String × Value))
  deriving Repr

/-- How a table was made: by its own header, by being named on the way to another table, or by a key
with dots. -/
inductive Origin where
  | header
  | implied
  | dotted
  deriving DecidableEq, Repr

mutual

inductive Item where
  | value (v : Value)
  | table (t : Table)
  /-- The tables of an array, the last one first. -/
  | tables (ts : List Table)

inductive Table where
  | mk (origin : Origin) (entries : List (String × Item))

end

namespace Table

def origin : Table → Origin
  | ⟨origin, _⟩ => origin

def entries : Table → List (String × Item)
  | ⟨_, entries⟩ => entries

def empty (origin : Origin) : Table :=
  ⟨origin, []⟩

/-! ## Writing to tables -/

/-- Changes the table that a path of keys leads to, and makes tables that are missing on the way. A key
with dots may only pass through tables that no header made. -/
def change (made : Origin) (f : Table → Option Table) : List String → Table → Option Table
  | [], table => f table
  | key :: path, ⟨origin, entries⟩ => do
    let item ←
      match entries.lookup key with
      | none => (change made f path (empty made)).map Item.table
      | some (.value _) => none
      | some (.tables []) => none
      | some (.tables (last :: before)) =>
        (change made f path last).map fun last => .tables (last :: before)
      | some (.table inner) =>
        if made = .dotted ∧ inner.origin = .header then none
        else (change made f path inner).map Item.table
    some ⟨origin, Dictionary.insert key item entries⟩

/-- Puts a value under a key that is free. A table made by dotted keys is written to by dotted keys
only, and any other table by plain ones. -/
def put (dotted : Bool) (key : String) (v : Value) : Table → Option Table
  | ⟨origin, entries⟩ =>
    if (origin = .dotted) ≠ dotted ∨ (entries.lookup key).isSome then none
    else some ⟨origin, Dictionary.insert key (.value v) entries⟩

def putAt (path : List String) (v : Value) (table : Table) : Option Table :=
  match path.getLast? with
  | none => none
  | some key => change .dotted (put (1 < path.length) key v) path.dropLast table

/-- Opens the table of a header: a new one, or one that was only implied so far. -/
def openTable (path : List String) (table : Table) : Option Table :=
  match path.getLast? with
  | none => none
  | some key =>
    table.change .implied (fun ⟨origin, entries⟩ =>
      match entries.lookup key with
      | none => some ⟨origin, Dictionary.insert key (.table (empty .header)) entries⟩
      | some (.table ⟨.implied, inner⟩) =>
        some ⟨origin, Dictionary.insert key (.table ⟨.header, inner⟩) entries⟩
      | some _ => none) path.dropLast

def openElement (path : List String) (table : Table) : Option Table :=
  match path.getLast? with
  | none => none
  | some key =>
    table.change .implied (fun ⟨origin, entries⟩ =>
      match entries.lookup key with
      | none => some ⟨origin, Dictionary.insert key (.tables [empty .header]) entries⟩
      | some (.tables ts) =>
        some ⟨origin, Dictionary.insert key (.tables (empty .header :: ts)) entries⟩
      | some _ => none) path.dropLast

/-! ## Values of tables -/

mutual

def toValue : Table → Value
  | ⟨_, entries⟩ => .table (entryValues entries)

def itemValue : Item → Value
  | .value v => v
  | .table t => toValue t
  | .tables ts => .array (tableValues ts).reverse

def tableValues : List Table → List Value
  | [] => []
  | t :: ts => toValue t :: tableValues ts

def entryValues : List (String × Item) → List (String × Value)
  | [] => []
  | (key, item) :: entries => (key, itemValue item) :: entryValues entries

end

end Table

end WikiPress.Toml
