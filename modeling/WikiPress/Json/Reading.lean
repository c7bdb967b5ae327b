import WikiPress.Json.Source

/-!
# Reading source trees

Readers go through a tree in the order of its text and stop at the first complaint. They are put
together from readers of scalars, lists, maps and records; what is nested is counted, so that a reader
goes no deeper than 127 levels.
-/

namespace WikiPress.Json

abbrev Reader (α : Type) := Source → Except Fault α

/-- How many arrays and objects may lie in one another. -/
def deepest : Nat := 127

/-! ## Complaints -/

/-- What a reader is told who wants something else than the tree has. Scalars are read to their end
first, and may turn out faulty there. -/
def Source.refusal (expected : Expected) : Source → Fault
  | .broken flaw => flaw.strict
  | .null stop => ⟨.wrongType .null expected, stop⟩
  | .boolean b stop => ⟨.wrongType (.boolean b) expected, stop⟩
  | .number (.ok n) stop => ⟨.wrongType (.number n) expected, stop⟩
  | .number (.error fault) _ => fault
  | .string (.ok s) stop => ⟨.wrongType (.string s) expected, stop⟩
  | .string (.error fault) _ => fault
  | .array start _ => ⟨.wrongType .array expected, start⟩
  | .object start _ => ⟨.wrongType .object expected, start⟩

def refuse {α : Type} (expected : Expected) : Reader α :=
  fun source => .error (source.refusal expected)

def tooDeep (start : Nat) : Fault :=
  ⟨.nestedTooDeep, start + 1⟩

/-! ## Passing over -/

mutual

def Source.pass : Source → Except Fault Unit
  | .broken flaw => .error flaw.lax
  | .array _ elements => elements.pass
  | .object _ members => members.pass
  | _ => .ok ()

def Elements.pass : Elements → Except Fault Unit
  | .closed _ => .ok ()
  | .flawed flaw _ => .error flaw.lax
  | .more _ item rest => do
    item.pass
    rest.pass

def Members.pass : Members → Except Fault Unit
  | .closed _ => .ok ()
  | .flawed flaw => .error flaw.lax
  | .more _ value rest => do
    value.pass
    rest.pass

end

/-! ## Scalars -/

def text : Reader String
  | .string value _ => value
  | source => refuse .text source

def path : Reader String
  | .string value _ => value
  | source => refuse .path source

def flag : Reader Bool
  | .boolean b _ => .ok b
  | source => refuse .flag source

/-! ## Lists, maps and absent values -/

def optional {α : Type} (reader : Reader α) : Reader (Option α)
  | .null _ => .ok none
  | source => (reader source).map some

def orElse {α : Type} (default : α) (reader : Reader α) : Reader α
  | .null _ => .ok default
  | source => reader source

def Elements.read {α : Type} (reader : Reader α) : Elements → Except Fault (List α)
  | .closed _ => .ok []
  | .flawed flaw _ => .error flaw.strict
  | .more _ item rest => do
    let a ← reader item
    let as ← rest.read reader
    .ok (a :: as)

def Members.read {α : Type} (reader : Reader α) : Members → Except Fault (List (String × α))
  | .closed _ => .ok []
  | .flawed flaw => .error flaw.strict
  | .more key value rest => do
    let name ← key.name
    let a ← reader value
    let as ← rest.read reader
    .ok ((name, a) :: as)

def list {α : Type} (reader : Nat → Reader α) (levels : Nat) : Reader (List α)
  | .array start elements =>
    match levels with
    | 0 => .error (tooDeep start)
    | levels + 1 => elements.read (reader levels)
  | source => refuse .array source

def pairs {α : Type} (reader : Nat → Reader α) (levels : Nat) : Reader (List (String × α))
  | .object start members =>
    match levels with
    | 0 => .error (tooDeep start)
    | levels + 1 => members.read (reader levels)
  | source => refuse .object source

/-- A map; of two members with one key the later counts. -/
def dictionary {α : Type} (reader : Nat → Reader α) (levels : Nat) : Reader (Dictionary α) :=
  fun source => (pairs reader levels source).map Dictionary.ofPairs

/-! ## Records -/

structure Field (σ : Type) where
  name : String
  required : Bool
  read : Nat → σ → Reader σ

def Field.of {σ α : Type} (name : String) (reader : Nat → Reader α) (set : α → σ → σ) : Field σ :=
  ⟨name, false, fun levels state source => (reader levels source).map (set · state)⟩

def Field.need {σ α : Type} (name : String) (reader : Nat → Reader α) (set : α → σ → σ) : Field σ :=
  { Field.of name reader set with required := true }

/-- Members in the order of the text: no field twice, and unknown ones passed over. -/
def Members.readRecord {σ : Type} (fields : List (Field σ)) (levels : Nat) (seen : List String)
    (state : σ) : Members → Except Fault σ
  | .closed stop =>
    match fields.find? fun f => f.required && !seen.contains f.name with
    | some f => .error ⟨.missingField f.name, stop⟩
    | none => .ok state
  | .flawed flaw => .error flaw.strict
  | .more key value rest => do
    let name ← key.name
    match fields.find? (·.name == name) with
    | none =>
      value.pass
      rest.readRecord fields levels seen state
    | some f =>
      if seen.contains name then .error ⟨.duplicateField name, key.mark⟩
      else
        let state ← f.read levels state value
        rest.readRecord fields levels (name :: seen) state

/-- Elements in the order of the fields; fields without an element keep what they have. -/
def Elements.readRecord {σ : Type} (name : String) (total : Nat) (levels : Nat) (state : σ) :
    List (Field σ) → Elements → Except Fault σ
  | [], .closed _ => .ok state
  | [], .flawed _ surplus => .error surplus
  | [], .more start _ _ => .error ⟨.trailingCharacters, start + 1⟩
  | f :: fields, .closed stop =>
    match (f :: fields).find? (·.required) with
    | none => .ok state
    | some missing =>
      let length := total - ((f :: fields).dropWhile fun g => g.name != missing.name).length
      .error ⟨.tooShort length name total, stop⟩
  | _ :: _, .flawed flaw _ => .error flaw.strict
  | f :: fields, .more _ item rest => do
    let state ← f.read levels state item
    Elements.readRecord name total levels state fields rest

/-- A record, written as an object or as the array of its fields. -/
def record {σ : Type} (name : String) (fields : List (Field σ)) (empty : σ) (levels : Nat) :
    Reader σ
  | .object start members =>
    match levels with
    | 0 => .error (tooDeep start)
    | levels + 1 => members.readRecord fields levels [] empty
  | .array start elements =>
    match levels with
    | 0 => .error (tooDeep start)
    | levels + 1 => elements.readRecord name fields.length levels empty fields
  | source => refuse (.record name) source

/-! ## Values -/

/-- Any value; of two members with one key the later counts. -/
def value : Nat → Reader Value
  | _, .broken flaw => .error flaw.strict
  | _, .null _ => .ok .null
  | _, .boolean b _ => .ok (.boolean b)
  | _, .number n _ => n.map .number
  | _, .string s _ => s.map .string
  | 0, .array start _ | 0, .object start _ => .error (tooDeep start)
  | levels + 1, .array _ elements => (elements.read (value levels)).map .array
  | levels + 1, .object _ members =>
    (members.read (value levels)).map fun pairs => .object (Dictionary.ofPairs pairs)

/-! ## Texts -/

def readFault {α : Type} (reader : Reader α) (s : String) : Except Fault α := do
  let document := Document.ofString s
  let a ← reader document.tree
  document.ending
  .ok a

def readText {α : Type} (reader : Reader α) (s : String) : Except String α :=
  (readFault reader s).mapError fun fault => fault.messageIn s

def Value.ofText (s : String) : Except String Value :=
  readText (value deepest) s

end WikiPress.Json
