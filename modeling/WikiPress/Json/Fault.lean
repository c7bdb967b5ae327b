import WikiPress.Json.Printer
import WikiPress.Text.Quoted

/-!
# Faults in JSON

Why a text or a value cannot be read, and where. A fault is told by its cause; in a text the place
follows, as a line and a count of bytes.
-/

namespace WikiPress.Json

inductive Expected where
  | text
  | flag
  | object
  | array
  | path
  | record (name : String)
  deriving DecidableEq, Repr

inductive Found where
  | null
  | boolean (b : Bool)
  | number (n : Number)
  | string (s : String)
  | array
  | object
  deriving DecidableEq, Repr

inductive Cause where
  | endOfValue
  | endOfArray
  | endOfObject
  | endOfString
  | expectedValue
  | expectedWord
  | expectedColon
  | expectedObjectSeparator
  | expectedArraySeparator
  | keyNotString
  | trailingComma
  | trailingCharacters
  | invalidNumber
  | numberOutOfRange
  | invalidEscape
  | endOfHexEscape
  | loneSurrogate
  | controlCharacter
  | nestedTooDeep
  | wrongType (found : Found) (expected : Expected)
  | missingField (name : String)
  | duplicateField (name : String)
  | tooShort (length : Nat) (name : String) (fields : Nat)
  | tooLong (length : Nat)
  deriving DecidableEq, Repr

/-- A cause with the number of bytes read when it was found. -/
structure Fault where
  cause : Cause
  offset : Nat
  deriving DecidableEq, Repr

/-! ## Wording -/

def backquoted (s : String) : String :=
  .ofList ('\x60' :: s.toList ++ ['\x60'])

def Expected.describe : Expected → String
  | .text => "a string"
  | .flag => "a boolean"
  | .object => "a map"
  | .array => "a sequence"
  | .path => "path string"
  | .record name => "struct " ++ name

def Found.describe : Found → String
  | .null => "null"
  | .boolean b => "boolean " ++ backquoted (if b then "true" else "false")
  | .number (.integer n) => "integer " ++ backquoted (.ofList (integerText n))
  | .number (.float x) => "floating point " ++ backquoted (.ofList (x.text numberLayout))
  | .string s => "string " ++ Text.quoted s
  | .array => "sequence"
  | .object => "map"

def plural (n : Nat) : String :=
  if n = 1 then "" else "s"

def Cause.message : Cause → String
  | .endOfValue => "EOF while parsing a value"
  | .endOfArray => "EOF while parsing a list"
  | .endOfObject => "EOF while parsing an object"
  | .endOfString => "EOF while parsing a string"
  | .expectedValue => "expected value"
  | .expectedWord => "expected ident"
  | .expectedColon => "expected " ++ backquoted ":"
  | .expectedObjectSeparator => "expected " ++ backquoted "," ++ " or " ++ backquoted "\x7d"
  | .expectedArraySeparator => "expected " ++ backquoted "," ++ " or " ++ backquoted "]"
  | .keyNotString => "key must be a string"
  | .trailingComma => "trailing comma"
  | .trailingCharacters => "trailing characters"
  | .invalidNumber => "invalid number"
  | .numberOutOfRange => "number out of range"
  | .invalidEscape => "invalid escape"
  | .endOfHexEscape => "unexpected end of hex escape"
  | .loneSurrogate => "lone leading surrogate in hex escape"
  | .controlCharacter => "control character (\\u0000-\\u001F) found while parsing a string"
  | .nestedTooDeep => "recursion limit exceeded"
  | .wrongType found expected =>
    "invalid type: " ++ found.describe ++ ", expected " ++ expected.describe
  | .missingField name => "missing field " ++ backquoted name
  | .duplicateField name => "duplicate field " ++ backquoted name
  | .tooShort length name fields =>
    "invalid length " ++ toString length ++ ", expected struct " ++ name ++ " with " ++
      toString fields ++ " element" ++ plural fields
  | .tooLong length =>
    "invalid length " ++ toString length ++ ", expected fewer elements in array"

/-! ## Place -/

/-- The line, counted from one, that holds the place after `offset` bytes, and the number of bytes
read of that line. -/
def placeOf (offset : Nat) (text : List Char) : Nat × Nat :=
  let rec go (line lineStart here : Nat) : List Char → Nat × Nat
    | [] => (line, offset - lineStart)
    | c :: cs =>
      if offset ≤ here then (line, offset - lineStart)
      else if c = '\n' then go (line + 1) (here + 1) (here + 1) cs
      else go line lineStart (here + c.utf8Size) cs
  go 1 0 0 text

def Fault.messageIn (fault : Fault) (text : String) : String :=
  let (line, column) := placeOf fault.offset text.toList
  fault.cause.message ++ " at line " ++ toString line ++ " column " ++ toString column

end WikiPress.Json
