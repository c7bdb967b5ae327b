import WikiPress.Binary64.Shortest
import WikiPress.Json.Value

/-!
# JSON text

Printing of values, in one line or indented by two blanks a level. Empty arrays and objects are
printed in one line always.
-/

namespace WikiPress.Json

/-! ## Scalars -/

/-- Numbers are positional from 10^-5 up to 10^16, with a fraction always. -/
def numberLayout : Decimal.Layout :=
  ⟨fun e => -5 ≤ e && e < 16, ['.', '0']⟩

def integerText (n : Int) : List Char :=
  if n < 0 then '-' :: Nat.toDigits 10 n.natAbs else Nat.toDigits 10 n.natAbs

def Number.chars : Number → List Char
  | .integer n => integerText n
  | .float x => x.text numberLayout

def hexDigit (n : Nat) : Char :=
  Nat.digitChar n

/-- Quotes, backslashes and the ASCII controls are escaped, and nothing else. -/
def escapedChar (c : Char) : List Char :=
  match c with
  | '"' => ['\\', '"']
  | '\\' => ['\\', '\\']
  | '\x08' => ['\\', 'b']
  | '\t' => ['\\', 't']
  | '\n' => ['\\', 'n']
  | '\x0c' => ['\\', 'f']
  | '\r' => ['\\', 'r']
  | c =>
    if c.toNat < 0x20 then
      ['\\', 'u', '0', '0', hexDigit (c.toNat / 16), hexDigit (c.toNat % 16)]
    else [c]

def stringChars (s : String) : List Char :=
  '"' :: s.toList.flatMap escapedChar ++ ['"']

/-! ## Values -/

/-- What stands before an item at a depth, and after a key. -/
structure Layout where
  lineBreak : Nat → List Char
  colon : List Char

def Layout.compact : Layout :=
  ⟨fun _ => [], [':']⟩

def Layout.indented : Layout :=
  ⟨fun depth => '\n' :: List.replicate (2 * depth) ' ', [':', ' ']⟩

namespace Value

mutual

def chars (layout : Layout) (depth : Nat) : Value → List Char
  | .null => ['n', 'u', 'l', 'l']
  | .boolean true => ['t', 'r', 'u', 'e']
  | .boolean false => ['f', 'a', 'l', 's', 'e']
  | .number n => n.chars
  | .string s => stringChars s
  | .array [] => ['[', ']']
  | .array (v :: vs) =>
    '[' :: layout.lineBreak (depth + 1) ++ chars layout (depth + 1) v ++
      itemChars layout (depth + 1) vs ++ layout.lineBreak depth ++ [']']
  | .object [] => ['\x7b', '\x7d']
  | .object ((k, v) :: fields) =>
    '\x7b' :: layout.lineBreak (depth + 1) ++ stringChars k ++ layout.colon ++
      chars layout (depth + 1) v ++ fieldChars layout (depth + 1) fields ++
      layout.lineBreak depth ++ ['\x7d']

def itemChars (layout : Layout) (depth : Nat) : List Value → List Char
  | [] => []
  | v :: vs => ',' :: layout.lineBreak depth ++ chars layout depth v ++ itemChars layout depth vs

def fieldChars (layout : Layout) (depth : Nat) : List (String × Value) → List Char
  | [] => []
  | (k, v) :: fields =>
    ',' :: layout.lineBreak depth ++ stringChars k ++ layout.colon ++ chars layout depth v ++
      fieldChars layout depth fields

end

def compact (v : Value) : String :=
  .ofList (chars .compact 0 v)

def pretty (v : Value) : String :=
  .ofList (chars .indented 0 v ++ ['\n'])

end Value

end WikiPress.Json
