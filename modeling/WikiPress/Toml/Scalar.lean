import WikiPress.Text.Digits
import WikiPress.Toml.Value

/-!
# TOML scalars

Strings, numbers and moments. Each reader takes what comes next of a text and gives the rest, or
nothing if the text does not say such a thing.
-/

namespace WikiPress.Toml

/-- Readers try one form after another on the same text. -/
abbrev Parser := StateT (List Char) Option

def peek? : Parser (Option Char) :=
  return (← get).head?

def take (n : Nat) : Parser (List Char) :=
  modifyGet fun cs => (cs.take n, cs.drop n)

def takeWhile (p : Char → Bool) : Parser (List Char) :=
  modifyGet fun cs => (cs.takeWhile p, cs.dropWhile p)

def accept (word : String) : Parser Bool := do
  let cs ← get
  if word.toList.isPrefixOf cs then
    set (cs.drop word.length)
    return true
  else return false

def expect (word : String) : Parser Unit := do
  unless ← accept word do failure

/-! ## Strings -/

/-- Characters that may stand in a text: no controls but the tab. -/
def isPlain (c : Char) : Bool :=
  c = '\t' || (0x20 ≤ c.toNat && c.toNat ≠ 0x7F)

def hexNumber? (digits : List Char) : Option Nat :=
  digits.foldl (fun n c => do some (16 * (← n) + (← Text.hexValue? c))) (some 0)

def codePoint? (digits : List Char) : Option Char := do
  let n ← hexNumber? digits
  if n < 0xD800 ∨ (0xDFFF < n ∧ n < 0x110000) then some (Char.ofNat n) else none

def escape : Parser Char := do
  match ← take 1 with
  | ['b'] => return '\x08'
  | ['t'] => return '\t'
  | ['n'] => return '\n'
  | ['f'] => return '\x0c'
  | ['r'] => return '\r'
  | ['"'] => return '"'
  | ['\\'] => return '\\'
  | ['u'] => ofDigits 4
  | ['U'] => ofDigits 8
  | _ => failure
where
  ofDigits (n : Nat) : Parser Char := do
    let digits ← take n
    if digits.length ≠ n then failure
    match codePoint? digits with
    | some c => return c
    | none => failure

/-- Reads a string in one line, after its quote. Only double quotes know escapes. -/
def lineString (quote : Char) : (fuel : Nat) → Parser (List Char)
  | 0 => failure
  | fuel + 1 => do
    match ← take 1 with
    | [c] =>
      if c = quote then return []
      else if c = '\\' ∧ quote = '"' then
        let c ← escape
        return c :: (← lineString quote fuel)
      else if isPlain c then return c :: (← lineString quote fuel)
      else failure
    | _ => failure

def lineEnd : Parser Bool := do
  if ← accept "\n" then return true else accept "\r\n"

def isLineBlank (c : Char) : Bool :=
  c = ' ' || c = '\t'

/-- Passes over the blanks and line ends after a backslash that ends a line. -/
def joinLines : Parser Unit :=
  modify fun cs => cs.dropWhile fun c => isLineBlank c || c = '\n' || c = '\r'

def endsLine (cs : List Char) : Bool :=
  match cs.dropWhile isLineBlank with
  | '\n' :: _ | '\r' :: '\n' :: _ => true
  | _ => false

/-- Reads a string over several lines, after its three quotes. Up to two quotes may stand before the
three that end it. -/
def blockString (quote : Char) : (fuel : Nat) → Parser (List Char)
  | 0 => failure
  | fuel + 1 => do
    let run := ((← get).takeWhile (· == quote)).length
    if 3 ≤ run then
      let n := min run 5
      discard (take n)
      return List.replicate (n - 3) quote
    else if ← lineEnd then return '\n' :: (← blockString quote fuel)
    else
      match ← take 1 with
      | [c] =>
        if c = '\\' ∧ quote = '"' then
          if endsLine (← get) then
            joinLines
            blockString quote fuel
          else
            let c ← escape
            return c :: (← blockString quote fuel)
        else if isPlain c then return c :: (← blockString quote fuel)
        else failure
      | _ => failure

def string : Parser String := do
  let fuel := (← get).length
  let cs ←
    if ← accept "\"\"\"" then do
      discard lineEnd
      blockString '"' fuel
    else if ← accept "'''" then do
      discard lineEnd
      blockString '\'' fuel
    else if ← accept "\"" then lineString '"' fuel
    else if ← accept "'" then lineString '\'' fuel
    else failure
  return .ofList cs

/-! ## Numbers -/

/-- Digits with single underscores between them, without the underscores. -/
def digitsOf? (isDigit : Char → Bool) (cs : List Char) : Option (List Char) :=
  let groups := splitUnderscores cs
  if groups.all fun group => !group.isEmpty && group.all isDigit then some groups.flatten else none
where
  splitUnderscores : List Char → List (List Char)
    | [] => [[]]
    | c :: cs =>
      match splitUnderscores cs with
      | [] => [[c]]
      | group :: groups => if c = '_' then [] :: group :: groups else (c :: group) :: groups

def isRadixDigit (base : Nat) (c : Char) : Bool :=
  match Text.hexValue? c with
  | some d => d < base
  | none => false

def valueIn (base : Nat) (digits : List Char) : Nat :=
  digits.foldl (fun n c => base * n + (Text.hexValue? c).getD 0) 0

def integer64? (n : Int) : Option Int :=
  if -(Nat.pow 2 63 : Int) ≤ n ∧ n < (Nat.pow 2 63 : Int) then some n else none

def integerOf? (cs : List Char) : Option Int :=
  let unsigned (base : Nat) (digits : List Char) : Option Int := do
    let digits ← digitsOf? (isRadixDigit base) digits
    integer64? (valueIn base digits)
  let signed (negative : Bool) (digits : List Char) : Option Int := do
    let digits ← digitsOf? Text.isDigit digits
    if 1 < digits.length ∧ digits.head? = some '0' then none
    else
      let n : Int := Text.decimalValue digits
      integer64? (if negative then -n else n)
  match cs with
  | '0' :: 'x' :: digits => unsigned 16 digits
  | '0' :: 'o' :: digits => unsigned 8 digits
  | '0' :: 'b' :: digits => unsigned 2 digits
  | '-' :: digits => signed true digits
  | '+' :: digits => signed false digits
  | digits => signed false digits

def splitSign : List Char → Bool × List Char
  | '-' :: cs => (true, cs)
  | '+' :: cs => (false, cs)
  | cs => (false, cs)

def floatOf? (cs : List Char) : Option Binary64 := do
  let (negative, cs) := splitSign cs
  if cs = "inf".toList then return .infinite negative
  if cs = "nan".toList then return .nan
  let isMark (c : Char) : Bool := c = 'e' || c = 'E'
  let mantissa := cs.takeWhile fun c => !isMark c
  let wholePart := mantissa.takeWhile (· != '.')
  let whole ← digitsOf? Text.isDigit wholePart
  if 1 < whole.length ∧ whole.head? = some '0' then none
  let fraction ←
    match mantissa.dropWhile (· != '.') with
    | [] => some []
    | _ :: digits => digitsOf? Text.isDigit digits
  let exponent : Int ←
    match cs.dropWhile fun c => !isMark c with
    | [] => if mantissa.length = wholePart.length then none else some 0
    | _ :: digits => do
      let (down, digits) := splitSign digits
      let digits ← digitsOf? Text.isDigit digits
      let e : Int := Text.decimalValue digits
      some (if down then -e else e)
  let significand := Text.decimalValue (whole ++ fraction)
  let e := exponent - fraction.length
  let x :=
    if significand = 0 then Binary64.zero negative
    else if 400 < e then .infinite negative
    else if e < -400 - ((whole ++ fraction).length : Int) then .zero negative
    else .ofRatio negative (significand * Nat.pow 10 e.toNat) (Nat.pow 10 (-e).toNat)
  if x = .infinite false then none else some x

/-! ## Moments -/

def fixedNumber (digits : Nat) : Parser Nat := do
  let cs ← take digits
  if cs.length = digits ∧ cs.all Text.isDigit then return Text.decimalValue cs else failure

def fixedRange (digits first last : Nat) : Parser Nat := do
  let n ← fixedNumber digits
  if first ≤ n ∧ n ≤ last then return n else failure

def padded (width n : Nat) : List Char :=
  let digits := Nat.toDigits 10 n
  List.replicate (width - digits.length) '0' ++ digits

def isLeapYear (year : Nat) : Bool :=
  year % 4 = 0 && (year % 100 ≠ 0 || year % 400 = 0)

def daysOf (year month : Nat) : Nat :=
  if month = 2 then (if isLeapYear year then 29 else 28)
  else if month = 4 ∨ month = 6 ∨ month = 9 ∨ month = 11 then 30
  else 31

def date : Parser (List Char) := do
  let year ← fixedNumber 4
  expect "-"
  let month ← fixedRange 2 1 12
  expect "-"
  let day ← fixedRange 2 1 (daysOf year month)
  return padded 4 year ++ ['-'] ++ padded 2 month ++ ['-'] ++ padded 2 day

/-- The fraction of a second counts nine digits, and zeros at its end are not printed. -/
def fraction : Parser (List Char) := do
  if ← accept "." then
    let digits ← takeWhile Text.isDigit
    if digits.isEmpty then failure
    let kept := ((digits.take 9).reverse.dropWhile (· == '0')).reverse
    return if kept.isEmpty then [] else '.' :: kept
  else return []

def clock : Parser (List Char) := do
  let hour ← fixedRange 2 0 23
  expect ":"
  let minute ← fixedRange 2 0 59
  expect ":"
  let second ← fixedRange 2 0 60
  let rest ← fraction
  return padded 2 hour ++ [':'] ++ padded 2 minute ++ [':'] ++ padded 2 second ++ rest

def zone : Parser (List Char) := do
  if (← accept "Z") || (← accept "z") then return ['Z']
  let (negative, cs) := splitSign (← get)
  if cs.length = (← get).length then return []
  set cs
  let hour ← fixedRange 2 0 23
  expect ":"
  let minute ← fixedRange 2 0 59
  let sign := if negative ∧ (hour ≠ 0 ∨ minute ≠ 0) then '-' else '+'
  return sign :: padded 2 hour ++ [':'] ++ padded 2 minute

def dayTime : Parser (List Char) := do
  let mark ← take 1
  unless mark = ['T'] ∨ mark = ['t'] ∨ mark = [' '] do failure
  let time ← clock
  return 'T' :: time ++ (← zone)

def moment : Parser (List Char) :=
  (do
    let day ← date
    return day ++ (← (dayTime <|> pure []))) <|> clock

/-! ## Words -/

def isNumberChar (c : Char) : Bool :=
  Text.isDigit c || c.isAlpha || c = '_' || c = '+' || c = '-' || c = '.'

/-- A number, which goes as far as its characters do. -/
def number : Parser Value := do
  let word ← takeWhile isNumberChar
  match integerOf? word, floatOf? word with
  | some n, _ => return .integer n
  | none, some x => return .float x
  | none, none => failure

def scalar : Parser Value := do
  match ← peek? with
  | some '"' | some '\'' => return .string (← string)
  | some 't' => expect "true"; return .boolean true
  | some 'f' => expect "false"; return .boolean false
  | _ => (do return .moment (.ofList (← moment))) <|> number

end WikiPress.Toml
