/-!
# Digits

Reading of unsigned numbers. The decimal digits are the ASCII ones; a number must fit 64 bits.
-/

namespace WikiPress.Text

def isDigit (c : Char) : Bool :=
  '0' ≤ c && c ≤ '9'

def isNumeric (cs : List Char) : Bool :=
  !cs.isEmpty && cs.all isDigit

def digitValue (c : Char) : Nat :=
  c.toNat - '0'.toNat

def decimalValue (cs : List Char) : Nat :=
  cs.foldl (fun n c => 10 * n + digitValue c) 0

def hexValue? (c : Char) : Option Nat :=
  if isDigit c then some (digitValue c)
  else if 'a' ≤ c && c ≤ 'f' then some (c.toNat - 'a'.toNat + 10)
  else if 'A' ≤ c && c ≤ 'F' then some (c.toNat - 'A'.toNat + 10)
  else none

def dropPlus : List Char → List Char
  | '+' :: cs => cs
  | cs => cs

/-- A number with one more digit behind it, unless that takes it to 2^64 or beyond. -/
def pushDigit? (n : Nat) (c : Char) : Option Nat :=
  if isDigit c && 10 * n + digitValue c < Nat.pow 2 64 then some (10 * n + digitValue c) else none

/-- An optional plus sign and one or more digits, of value below 2^64. Reading ends at the first digit
that takes the number too far. -/
def unsigned64? (s : String) : Option Nat :=
  match dropPlus s.toList with
  | [] => none
  | digits => digits.foldlM pushDigit? 0

def hexDigits (n : Nat) : List Char :=
  Nat.toDigits 16 n

end WikiPress.Text
