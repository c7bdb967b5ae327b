import WikiPress.Json.Fault
import WikiPress.Text.Digits
import WikiPress.Text.Utf8

/-!
# Source trees

A JSON text as a tree, before anything is asked of it. Reading a text never fails here: where the text
stops being JSON the tree ends in a flaw, so that a reader who goes through the tree in order meets
its own complaints and the flaw in the order of the text. Literals that are well formed but say
nothing (a number out of range, half a surrogate pair) carry their fault and hurt only who reads them.
-/

namespace WikiPress.Json

/-! ## Trees -/

/-- Why a text stops being JSON: what a reader is told who wants the value, and what one is told who
only passes over it. -/
structure Flaw where
  strict : Fault
  lax : Fault
  deriving DecidableEq, Repr

def Flaw.of (cause : Cause) (offset : Nat) : Flaw :=
  ⟨⟨cause, offset⟩, ⟨cause, offset⟩⟩

/-- A key with the place at which a complaint about the key itself is made. -/
structure Key where
  name : Except Fault String
  mark : Nat

mutual

/-- A value of the text: scalars know where they end, arrays and objects where they start. -/
inductive Source where
  | broken (flaw : Flaw)
  | null (stop : Nat)
  | boolean (b : Bool) (stop : Nat)
  | number (value : Except Fault Number) (stop : Nat)
  | string (value : Except Fault String) (stop : Nat)
  | array (start : Nat) (elements : Elements)
  | object (start : Nat) (members : Members)

/-- The elements of an array. A flaw comes with what a reader is told who expects no element. -/
inductive Elements where
  | closed (stop : Nat)
  | flawed (flaw : Flaw) (surplus : Fault)
  | more (start : Nat) (item : Source) (rest : Elements)

inductive Members where
  | closed (stop : Nat)
  | flawed (flaw : Flaw)
  | more (key : Key) (value : Source) (rest : Members)

end

/-! ## Places -/

structure Cursor where
  rest : List Char
  offset : Nat
  deriving DecidableEq, Repr

namespace Cursor

def ofString (s : String) : Cursor :=
  ⟨s.toList, 0⟩

def isSpace (c : Char) : Bool :=
  c = ' ' || c = '\n' || c = '\t' || c = '\r'

def skipSpace (at' : Cursor) : Cursor :=
  ⟨at'.rest.dropWhile isSpace, at'.offset + (at'.rest.takeWhile isSpace).length⟩

/-- Passes over a list of ASCII characters that is known to come next. -/
def skip (at' : Cursor) (n : Nat) : Cursor :=
  ⟨at'.rest.drop n, at'.offset + n⟩

/-- The place after the next byte, or the end. -/
def peekOffset (at' : Cursor) : Nat :=
  if at'.rest.isEmpty then at'.offset else at'.offset + 1

end Cursor

structure Scan (α : Type) where
  tree : α
  next : Except Flaw Cursor

/-! ## Words -/

def scanWord (word : List Char) (at' : Cursor) : Except Flaw Cursor :=
  match word, at'.rest with
  | [], _ => .ok at'
  | _ :: _, [] => .error (.of .endOfValue at'.offset)
  | w :: ws, c :: cs =>
    if w = c then scanWord ws ⟨cs, at'.offset + 1⟩ else .error (.of .expectedWord (at'.offset + 1))

/-! ## Numbers -/

/-- The parts of a number: digits before the point, after it, and of the exponent. -/
structure NumberLiteral where
  negative : Bool
  whole : List Char
  fraction : Option (List Char)
  exponent : Option (Bool × List Char)
  deriving DecidableEq, Repr

namespace NumberLiteral

open Text (digitValue decimalValue)

def appendDigit? (significand : Nat) (c : Char) : Option Nat :=
  let grown := 10 * significand + digitValue c
  if grown < Nat.pow 2 64 then some grown else none

/-- Collects digits while the significand fits; the number of digits left over comes with it. -/
def collect (significand : Nat) : List Char → Nat × Nat
  | [] => (significand, 0)
  | c :: cs =>
    match appendDigit? significand c with
    | none => (significand, (c :: cs).length)
    | some grown => collect grown cs

def power10 (n : Nat) : Binary64 :=
  .ofNat (Nat.pow 10 n)

/-- A double scaled by a power of ten, in one step up to 10^308 and in several beyond. -/
def scale? (x : Binary64) (e : Int) : Option Binary64 :=
  if e.natAbs ≤ 308 then
    if 0 ≤ e then
      let y := x.mul (power10 e.natAbs)
      if y.isFinite then some y else none
    else some (x.div (power10 e.natAbs))
  else if x.isZero then some x
  else if 0 ≤ e then none
  else scale? (x.div (power10 308)) (e + 308)
termination_by e.natAbs
decreasing_by omega

/-- The exponent that a literal writes, or nothing once its digits pass 31 bits. -/
def exponent31? (digits : List Char) : Option Nat :=
  if decimalValue digits < Nat.pow 2 31 then some (decimalValue digits) else none

/-- The number of digits of an exponent up to and with the one that makes it pass 31 bits. -/
def digitsTo31 (digits : List Char) : Nat :=
  match (List.range (digits.length + 1)).find? fun n => Nat.pow 2 31 ≤ decimalValue (digits.take n) with
  | some n => n
  | none => digits.length

def signed (negative : Bool) (x : Binary64) : Binary64 :=
  if negative then x.neg else x

/-- The double that a literal writes. The significand is read into 64 bits and rounded, then scaled
by the power of ten and rounded again. `stop` is the end of the literal and `exponentStart` the place
of the first digit of its exponent. -/
def toBinary64 (l : NumberLiteral) (exponentStart stop : Nat) : Except Fault Binary64 :=
  let (significand, dropped) := collect 0 l.whole
  let fraction := l.fraction.getD []
  let (significand, left) := collect significand fraction
  let shift : Int := (dropped : Int) - (fraction.length - left : Nat)
  let finish (e : Int) : Except Fault Binary64 :=
    match scale? (.ofNat significand) e with
    | some x => .ok (signed l.negative x)
    | none => .error ⟨.numberOutOfRange, stop⟩
  match l.exponent with
  | none => finish shift
  | some (down, digits) =>
    match exponent31? digits with
    | some e => finish (if down then shift - e else shift + e)
    | none =>
      if significand ≠ 0 ∧ !down then
        .error ⟨.numberOutOfRange, exponentStart + digitsTo31 digits⟩
      else .ok (.zero l.negative)

/-- An integer of 64 bits stays one; a negative zero and all else are doubles. -/
def value (l : NumberLiteral) (exponentStart stop : Nat) : Except Fault Number :=
  let magnitude := decimalValue l.whole
  let n : Int := if l.negative then -(magnitude : Int) else magnitude
  if l.fraction.isNone ∧ l.exponent.isNone ∧ Number.isInteger64 n ∧ ¬(l.negative ∧ n = 0) then
    .ok (.integer n)
  else (l.toBinary64 exponentStart stop).map .float

end NumberLiteral

structure NumberScan where
  literal : NumberLiteral
  exponentStart : Nat
  next : Cursor

def digitsAt (at' : Cursor) : List Char × Cursor :=
  let digits := at'.rest.takeWhile Text.isDigit
  (digits, at'.skip digits.length)

/-- A digit is missing at a place: whoever wants the number learns when the text has ended there. -/
def digitMissing (at' : Cursor) : Flaw :=
  if at'.rest.isEmpty then ⟨⟨.endOfValue, at'.offset⟩, ⟨.invalidNumber, at'.offset⟩⟩
  else .of .invalidNumber (at'.offset + 1)

/-- The digits before the point: one zero, or digits that start with none. -/
def scanWhole (at' : Cursor) : Except Flaw (List Char × Cursor) :=
  match at'.rest with
  | '0' :: c :: _ =>
    if Text.isDigit c then .error (.of .invalidNumber (at'.offset + 2)) else .ok (['0'], at'.skip 1)
  | _ =>
    let (digits, next) := digitsAt at'
    if digits.isEmpty then .error (digitMissing at') else .ok (digits, next)

def scanFraction (at' : Cursor) : Except Flaw (Option (List Char) × Cursor) :=
  match at'.rest with
  | '.' :: _ =>
    let (digits, next) := digitsAt (at'.skip 1)
    if digits.isEmpty then .error (digitMissing (at'.skip 1)) else .ok (some digits, next)
  | _ => .ok (none, at')

def scanSign (at' : Cursor) : Bool × Cursor :=
  match at'.rest with
  | '-' :: _ => (true, at'.skip 1)
  | '+' :: _ => (false, at'.skip 1)
  | _ => (false, at')

def scanExponent (at' : Cursor) : Except Flaw (Option (Bool × List Char) × Nat × Cursor) :=
  match at'.rest with
  | 'e' :: _ | 'E' :: _ =>
    let (down, start) := scanSign (at'.skip 1)
    let (digits, next) := digitsAt start
    if digits.isEmpty then .error (digitMissing start)
    else .ok (some (down, digits), start.offset, next)
  | _ => .ok (none, at'.offset, at')

def scanNumber (at' : Cursor) : Except Flaw NumberScan := do
  let (negative, start) :=
    match at'.rest with
    | '-' :: _ => (true, at'.skip 1)
    | _ => (false, at')
  let (whole, next) ← scanWhole start
  let (fraction, next) ← scanFraction next
  let (exponent, exponentStart, next) ← scanExponent next
  .ok ⟨⟨negative, whole, fraction, exponent⟩, exponentStart, next⟩

/-! ## Strings -/

/-- A string: its text, or the first fault that only a reader of the text minds. -/
structure StringScan where
  value : Except Fault String
  next : Cursor

/-- What is known of a string so far: its characters from the last to the first, half a surrogate
pair that waits for the other, and the first fault. -/
structure StringState where
  reversed : List Char
  pending : Option Nat
  fault : Option Fault

namespace StringState

def empty : StringState :=
  ⟨[], none, none⟩

def blame (state : StringState) (cause : Cause) (offset : Nat) : StringState :=
  { state with fault := state.fault <|> some ⟨cause, offset⟩ }

/-- Something other than an escape follows, up to `offset`: half a pair stays half. -/
def settle (state : StringState) (offset : Nat) : StringState :=
  match state.pending with
  | none => state
  | some _ => { state.blame .endOfHexEscape offset with pending := none }

def push (state : StringState) (c : Char) : StringState :=
  { state with reversed := c :: state.reversed }

def pushUnit (state : StringState) (u offset : Nat) : StringState :=
  let isLow := 0xDC00 ≤ u ∧ u ≤ 0xDFFF
  let isHigh := 0xD800 ≤ u ∧ u ≤ 0xDBFF
  match state.pending with
  | some high =>
    let state := { state with pending := none }
    if isLow then state.push (Char.ofNat (0x10000 + (high - 0xD800) * 0x400 + (u - 0xDC00)))
    else state.blame .loneSurrogate offset
  | none =>
    if isLow then state.blame .loneSurrogate offset
    else if isHigh then { state with pending := some u }
    else state.push (Char.ofNat u)

/-- The text stops being JSON; an earlier fault is still told first. -/
def stop (state : StringState) (strict lax : Fault) : Flaw :=
  ⟨state.fault.getD strict, lax⟩

def value (state : StringState) : Except Fault String :=
  match state.fault with
  | some fault => .error fault
  | none => .ok (.ofList state.reversed.reverse)

end StringState

def unescaped? (c : Char) : Option Char :=
  match c with
  | '"' => some '"'
  | '\\' => some '\\'
  | '/' => some '/'
  | 'b' => some '\x08'
  | 'f' => some '\x0c'
  | 'n' => some '\n'
  | 'r' => some '\r'
  | 't' => some '\t'
  | _ => none

def hex4? (a b c d : Char) : Option Nat := do
  let a ← Text.hexValue? a
  let b ← Text.hexValue? b
  let c ← Text.hexValue? c
  let d ← Text.hexValue? d
  some (((a * 16 + b) * 16 + c) * 16 + d)

/-- Four bytes that should be hexadecimal are not, or the text has no four bytes. -/
def hexFlaw (state : StringState) (rest : List Char) (offset : Nat) : Flaw :=
  let bytes := (Text.utf8Bytes rest).length
  if bytes < 4 then
    let fault : Fault := ⟨.endOfString, offset + bytes⟩
    state.stop fault fault
  else
    let fault : Fault := ⟨.invalidEscape, offset + 4⟩
    state.stop fault fault

def scanString (state : StringState) (offset : Nat) : List Char → Except Flaw StringScan
  | [] =>
    let fault : Fault := ⟨.endOfString, offset⟩
    .error (state.stop fault fault)
  | '"' :: rest => .ok ⟨(state.settle (offset + 1)).value, ⟨rest, offset + 1⟩⟩
  | '\\' :: 'u' :: a :: b :: c :: d :: rest =>
    match hex4? a b c d with
    | some u => scanString (state.pushUnit u (offset + 6)) (offset + 6) rest
    | none => .error (hexFlaw state (a :: b :: c :: d :: rest) (offset + 2))
  | '\\' :: 'u' :: rest => .error (hexFlaw state rest (offset + 2))
  | '\\' :: e :: rest =>
    let state := state.settle (offset + 2)
    match unescaped? e with
    | some c => scanString (state.push c) (offset + 2) rest
    | none =>
      let fault : Fault := ⟨.invalidEscape, offset + 2⟩
      .error (state.stop fault fault)
  | ['\\'] =>
    let fault : Fault := ⟨.endOfString, offset + 1⟩
    .error (state.stop fault fault)
  | c :: rest =>
    let state := state.settle (offset + 1)
    if c.toNat < 0x20 then
      .error (state.stop ⟨.controlCharacter, offset + 1⟩ ⟨.controlCharacter, offset⟩)
    else scanString (state.push c) (offset + c.utf8Size) rest

/-! ## Values -/

def scalar {α : Type} (result : Except Flaw α) (tree : α → Source) (next : α → Cursor) :
    Scan Source :=
  match result with
  | .error flaw => ⟨.broken flaw, .error flaw⟩
  | .ok a => ⟨tree a, .ok (next a)⟩

/-- What reading gives that runs out of fuel; enough fuel is given that this is never met. -/
def exhausted (at' : Cursor) : Flaw :=
  .of .endOfValue at'.offset

def separatorMissing (at' : Cursor) (atEnd otherwise : Cause) : Flaw :=
  if at'.rest.isEmpty then .of atEnd at'.offset else .of otherwise at'.peekOffset

mutual

def scanValue : (fuel : Nat) → Cursor → Scan Source
  | 0, at' => ⟨.broken (exhausted at'), .error (exhausted at')⟩
  | fuel + 1, at' =>
    let at' := at'.skipSpace
    match at'.rest with
    | [] => scalar (.error (.of .endOfValue at'.offset)) (fun _ : Cursor => .null 0) id
    | 'n' :: _ => scalar (scanWord ['u', 'l', 'l'] (at'.skip 1)) (fun c => .null c.offset) id
    | 't' :: _ => scalar (scanWord ['r', 'u', 'e'] (at'.skip 1)) (fun c => .boolean true c.offset) id
    | 'f' :: _ =>
      scalar (scanWord ['a', 'l', 's', 'e'] (at'.skip 1)) (fun c => .boolean false c.offset) id
    | '"' :: rest =>
      scalar (scanString .empty (at'.offset + 1) rest)
        (fun s => .string s.value s.next.offset) (·.next)
    | '[' :: _ =>
      let elements := scanElements fuel true (at'.skip 1)
      ⟨.array at'.offset elements.tree, elements.next⟩
    | '\x7b' :: _ =>
      let members := scanMembers fuel true (at'.skip 1)
      ⟨.object at'.offset members.tree, members.next⟩
    | c :: _ =>
      if c = '-' || Text.isDigit c then
        scalar (scanNumber at')
          (fun n => .number (n.literal.value n.exponentStart n.next.offset) n.next.offset) (·.next)
      else
        let flaw := Flaw.of .expectedValue (at'.offset + 1)
        ⟨.broken flaw, .error flaw⟩

def scanElements : (fuel : Nat) → (first : Bool) → Cursor → Scan Elements
  | 0, _, at' => ⟨.flawed (exhausted at') (exhausted at').strict, .error (exhausted at')⟩
  | fuel + 1, first, at' =>
    let at' := at'.skipSpace
    let stopped (flaw : Flaw) (surplus : Fault) : Scan Elements :=
      ⟨.flawed flaw surplus, .error flaw⟩
    let element (at' : Cursor) : Scan Elements :=
      let item := scanValue fuel at'
      match item.next with
      | .error flaw => ⟨.more at'.offset item.tree (.flawed flaw flaw.strict), .error flaw⟩
      | .ok next =>
        let rest := scanElements fuel false next
        ⟨.more at'.offset item.tree rest.tree, rest.next⟩
    match first, at'.rest with
    | _, ']' :: _ => ⟨.closed (at'.offset + 1), .ok (at'.skip 1)⟩
    | _, [] =>
      let flaw := Flaw.of .endOfArray at'.offset
      stopped flaw flaw.strict
    | true, _ => element at'
    | false, ',' :: _ =>
      let at' := (at'.skip 1).skipSpace
      match at'.rest with
      | ']' :: _ =>
        let fault : Fault := ⟨.trailingComma, at'.peekOffset⟩
        stopped ⟨fault, ⟨.expectedValue, at'.peekOffset⟩⟩ fault
      | [] => stopped (.of .endOfValue at'.offset) ⟨.trailingCharacters, at'.offset⟩
      | _ => element at'
    | false, _ =>
      stopped (.of .expectedArraySeparator at'.peekOffset) ⟨.trailingCharacters, at'.peekOffset⟩

def scanMembers : (fuel : Nat) → (first : Bool) → Cursor → Scan Members
  | 0, _, at' => ⟨.flawed (exhausted at'), .error (exhausted at')⟩
  | fuel + 1, first, at' =>
    let at' := at'.skipSpace
    let stopped (flaw : Flaw) : Scan Members := ⟨.flawed flaw, .error flaw⟩
    let member (offset : Nat) (rest : List Char) : Scan Members :=
      match scanString .empty offset rest with
      | .error flaw => stopped flaw
      | .ok name =>
        let at' := name.next.skipSpace
        let key : Key :=
          ⟨name.value, if at'.rest.head? = some '\x7d' then at'.offset + 1 else at'.offset⟩
        match at'.rest with
        | ':' :: _ =>
          let value := scanValue fuel (at'.skip 1)
          match value.next with
          | .error flaw => ⟨.more key value.tree (.flawed flaw), .error flaw⟩
          | .ok next =>
            let rest := scanMembers fuel false next
            ⟨.more key value.tree rest.tree, rest.next⟩
        | _ =>
          let flaw := separatorMissing at' .endOfObject .expectedColon
          ⟨.more key (.broken flaw) (.flawed flaw), .error flaw⟩
    match first, at'.rest with
    | _, '\x7d' :: _ => ⟨.closed (at'.offset + 1), .ok (at'.skip 1)⟩
    | _, [] => stopped (.of .endOfObject at'.offset)
    | true, '"' :: rest => member (at'.offset + 1) rest
    | true, _ => stopped (.of .keyNotString at'.peekOffset)
    | false, ',' :: _ =>
      let at' := (at'.skip 1).skipSpace
      match at'.rest with
      | '"' :: rest => member (at'.offset + 1) rest
      | '\x7d' :: _ =>
        stopped ⟨⟨.trailingComma, at'.peekOffset⟩, ⟨.keyNotString, at'.peekOffset⟩⟩
      | [] => stopped ⟨⟨.endOfValue, at'.offset⟩, ⟨.endOfObject, at'.offset⟩⟩
      | _ => stopped (.of .keyNotString at'.peekOffset)
    | false, _ => stopped (.of .expectedObjectSeparator at'.peekOffset)

end

structure Document where
  tree : Source
  ending : Except Fault Unit

/-- Every step of a value passes over a character at least, so twice the length is fuel enough. -/
def Document.ofString (s : String) : Document :=
  let start := Cursor.ofString s
  let scan := scanValue (2 * start.rest.length + 2) start
  let ending :=
    match scan.next with
    | .error flaw => .error flaw.strict
    | .ok next =>
      let next := next.skipSpace
      if next.rest.isEmpty then .ok () else .error ⟨.trailingCharacters, next.peekOffset⟩
  ⟨scan.tree, ending⟩

end WikiPress.Json
