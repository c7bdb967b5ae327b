import WikiPress.Toml.Scalar

/-!
# TOML documents

Keys, arrays, tables and whole files. A file that says one thing twice is none.
-/

namespace WikiPress.Toml

/-- How deep arrays and tables may nest in a value, and how long a key with dots may be. -/
def deepest : Nat := 79

/-! ## Blanks -/

def skipBlank : Parser Unit :=
  modify (·.dropWhile isLineBlank)

def skipComment : Parser Unit := do
  if ← accept "#" then modify (·.dropWhile isPlain)

def skipLines : (fuel : Nat) → Parser Unit
  | 0 => return ()
  | fuel + 1 => do
    skipBlank
    skipComment
    if ← lineEnd then skipLines fuel

def skipGap : Parser Unit := do
  skipLines (← get).length.succ

def endLine : Parser Unit := do
  skipBlank
  skipComment
  unless (← get).isEmpty || (← lineEnd) do failure

/-! ## Keys -/

def isBareKey (c : Char) : Bool :=
  Text.isDigit c || c.isAlpha || c = '_' || c = '-'

def simpleKey : Parser String := do
  match ← peek? with
  | some '"' | some '\'' =>
    let quote := (← take 1).headD '"'
    return .ofList (← lineString quote (← get).length)
  | _ =>
    let cs ← takeWhile isBareKey
    if cs.isEmpty then failure else return .ofList cs

def dottedKey : (fuel : Nat) → Parser (List String)
  | 0 => failure
  | fuel + 1 => do
    skipBlank
    let key ← simpleKey
    skipBlank
    if ← accept "." then return key :: (← dottedKey fuel) else return [key]

def keyPath : Parser (List String) :=
  dottedKey deepest

/-! ## Values -/

def elements (value : Parser Value) : (fuel : Nat) → Parser (List Value)
  | 0 => failure
  | fuel + 1 => do
    skipGap
    if ← accept "]" then return []
    let v ← value
    skipGap
    if ← accept "," then return v :: (← elements value fuel)
    expect "]"
    return [v]

def assignment (value : Parser Value) : Parser (List String × Value) := do
  let path ← keyPath
  expect "="
  skipBlank
  return (path, ← value)

def inlineEntries (value : Parser Value) (table : Table) : (fuel : Nat) → Parser Table
  | 0 => failure
  | fuel + 1 => do
    let (path, v) ← assignment value
    let some table := table.putAt path v | failure
    skipBlank
    if ← accept "," then inlineEntries value table fuel
    else
      expect "\x7d"
      return table

def inlineTable (value : Parser Value) : Parser Value := do
  skipBlank
  let table := Table.empty .header
  if ← accept "\x7d" then return table.toValue
  return (← inlineEntries value table (← get).length).toValue

/-- A value in which arrays and tables nest so many levels deep at most. -/
def value : (levels : Nat) → Parser Value
  | 0 => scalar
  | levels + 1 => do
    if ← accept "[" then return .array (← elements (value levels) (← get).length)
    else if ← accept "\x7b" then inlineTable (value levels)
    else scalar

/-! ## Lines -/

structure State where
  root : Table
  header : List String

def header (state : State) : Parser State := do
  let isArray ← accept "[["
  unless isArray do expect "["
  let path ← keyPath
  expect (if isArray then "]]" else "]")
  endLine
  match if isArray then state.root.openElement path else state.root.openTable path with
  | some root => return ⟨root, path⟩
  | none => failure

def entry (state : State) : Parser State := do
  let (path, v) ← assignment (value deepest)
  endLine
  match state.root.change .implied (Table.putAt path v) state.header with
  | some root => return { state with root }
  | none => failure

def lines (state : State) : (fuel : Nat) → Parser State
  | 0 => return state
  | fuel + 1 => do
    skipGap
    match ← peek? with
    | none => return state
    | some '[' => lines (← header state) fuel
    | some _ => lines (← entry state) fuel

/-- Reads a whole file; a mark of its byte order at the start does not count. -/
def ofString (s : String) : Option Value := do
  let cs := s.toList
  let cs := if cs.head? = some '\uFEFF' then cs.tail else cs
  let (state, rest) ← (lines ⟨.empty .header, []⟩ (cs.length + 1)).run cs
  if rest.isEmpty then some state.root.toValue else none

end WikiPress.Toml
