import WikiPress.Text.Search
import WikiPress.Text.Utf8
import WikiPress.Url.Punycode

/-!
# Hosts

Which host names a URL may have. A host is a name, four numbers, or eight groups of hexadecimal digits
in brackets; a name must not hold characters that delimit the other parts of a URL.
-/

namespace WikiPress.Url

/-! ## Percent escapes -/

def charBytes (cs : List Char) : List UInt8 :=
  Text.utf8Bytes cs

/-- The bytes that a text with percent escapes stands for; a percent sign without two hexadecimal
digits stands for itself. -/
def percentBytes : List Char → List UInt8
  | '%' :: a :: b :: cs =>
    match Text.hexValue? a, Text.hexValue? b with
    | some x, some y => UInt8.ofNat (16 * x + y) :: percentBytes cs
    | _, _ => charBytes ['%'] ++ percentBytes (a :: b :: cs)
  | c :: cs => charBytes [c] ++ percentBytes cs
  | [] => []
termination_by cs => cs.length

def percentDecode (cs : List Char) : List Char :=
  Text.decodeLossy (percentBytes cs)

namespace Host

/-! ## Numbers -/

/-- A part of an address of four numbers: hexadecimal after `0x`, octal after `0`, else decimal. -/
def number? (cs : List Char) : Option Nat :=
  let inBase (base : Nat) (digits : List Char) : Option Nat :=
    digits.foldl (fun n c => do
      let n ← n
      let d ← Text.hexValue? c
      if d < base then some (base * n + d) else none) (some 0)
  match cs with
  | [] => none
  | '0' :: 'x' :: digits | '0' :: 'X' :: digits => inBase 16 digits
  | '0' :: d :: digits => inBase 8 (d :: digits)
  | digits => inBase 10 digits

/-- The parts between the dots, without an empty one at the end. -/
def labels (cs : List Char) : List (List Char) :=
  let parts := Text.splitAt '.' cs
  if parts.getLast? = some [] then parts.dropLast else parts

/-- Does the name look like an address of numbers? -/
def endsInNumber (cs : List Char) : Bool :=
  match (labels cs).getLast? with
  | none => false
  | some part => Text.isNumeric part || (part.head? = some '0' && (number? part).isSome)

/-- Up to four numbers, of which the last fills the bytes that the others leave. -/
def isAddress4 (cs : List Char) : Bool :=
  let parts := labels cs
  match parts.mapM number? with
  | none => false
  | some numbers =>
    match numbers.getLast? with
    | none => false
    | some last =>
      numbers.length ≤ 4 && numbers.dropLast.all (· ≤ 255) && last < Nat.pow 256 (5 - numbers.length)

/-! ## Groups of hexadecimal digits -/

def isGroup (cs : List Char) : Bool :=
  1 ≤ cs.length && cs.length ≤ 4 && cs.all fun c => (Text.hexValue? c).isSome

/-- Four plain numbers below 256, in the place of the last two groups. -/
def isEmbedded4 (cs : List Char) : Bool :=
  let parts := Text.splitAt '.' cs
  parts.length = 4 && parts.all fun part =>
    Text.isNumeric part && Text.decimalValue part ≤ 255 &&
      (part.length = 1 || part.head? ≠ some '0')

def groupCount? : List (List Char) → Option Nat
  | [] => some 0
  | [part] => if isGroup part then some 1 else if isEmbedded4 part then some 2 else none
  | part :: parts => if isGroup part then (groupCount? parts).map (· + 1) else none

def cutDouble : List Char → Option (List Char × List Char)
  | ':' :: ':' :: cs => some ([], cs)
  | c :: cs => (cutDouble cs).map fun (a, b) => (c :: a, b)
  | [] => none

def groups (cs : List Char) : List (List Char) :=
  if cs = [] then [] else Text.splitAt ':' cs

/-- Eight groups, or fewer with one `::` for the missing ones. -/
def isAddress6 (cs : List Char) : Bool :=
  match cutDouble cs with
  | none => groupCount? (groups cs) = some 8
  | some (before, after) =>
    match (groups before).all isGroup, groupCount? (groups after) with
    | true, some n => (groups before).length + n ≤ 7
    | _, _ => false

/-! ## Names -/

/-- Full-width letters count as plain ones, and the dots of other scripts as dots. -/
def plainChar (c : Char) : Char :=
  if 0xFF01 ≤ c.toNat ∧ c.toNat ≤ 0xFF5E then Char.ofNat (c.toNat - 0xFEE0)
  else if c.toNat = 0x3002 ∨ c.toNat = 0xFF61 then '.'
  else c

/-- Characters that leave no trace in a name. -/
def isDropped (c : Char) : Bool :=
  [0xAD, 0x34F, 0x180B, 0x180C, 0x180D, 0x180F, 0x200B, 0x2060, 0x2064, 0xFEFF].contains c.toNat ||
    (0xFE00 ≤ c.toNat && c.toNat ≤ 0xFE0F)

def forbiddenRanges : List (Nat × Nat) :=
  [(0x00, 0x20), (0x7F, 0xA0), (0x1680, 0x1680), (0x2000, 0x200A), (0x200C, 0x200F),
   (0x2028, 0x202F), (0x205F, 0x205F), (0x2066, 0x206F), (0x3000, 0x3000), (0xE000, 0xF8FF),
   (0xFFF0, 0xFFFF), (0xE0000, 0x10FFFF)]

/-- Characters that no name may hold: blanks, controls, delimiters and code points without use. -/
def isForbidden (c : Char) : Bool :=
  "%#/:<>?@[\\]^|".toList.contains c ||
    forbiddenRanges.any fun (first, last) => first ≤ c.toNat && c.toNat ≤ last

/-- A label marked as encoded must decode to something that needed it. -/
def isLabel (label : List Char) : Bool :=
  match (label.take 4).map Char.toLower with
  | ['x', 'n', '-', '-'] =>
    match Punycode.decode? (label.drop 4) with
    | none => false
    | some decoded =>
      decoded.any (fun c => 0x80 ≤ c.toNat) && !decoded.any fun c => isForbidden c || c = '.'
  | _ => true

def isValid (cs : List Char) : Bool :=
  match cs with
  | '[' :: rest => rest.getLast? = some ']' && isAddress6 rest.dropLast
  | _ =>
    let name := ((percentDecode cs).filter fun c => !isDropped c).map plainChar
    !name.isEmpty && !name.any isForbidden && (Text.splitAt '.' name).all isLabel &&
      (!endsInNumber name || isAddress4 name)

def isValidOpaque (cs : List Char) : Bool :=
  match cs with
  | '[' :: rest => rest.getLast? = some ']' && isAddress6 rest.dropLast
  | _ => !cs.any fun c => "\x00\t\n\r #/:<>?@[\\]^|".toList.contains c

end Host

end WikiPress.Url
