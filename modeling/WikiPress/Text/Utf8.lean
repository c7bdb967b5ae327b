/-!
# UTF-8

Bytes of a text, and the reading of bytes that may be no text: each longest start of a character
that cannot go on is read as one replacement character.
-/

namespace WikiPress.Text

def replacement : Char := '\uFFFD'

def utf8Bytes (cs : List Char) : List UInt8 :=
  cs.flatMap String.utf8EncodeChar

/-- A continuation byte that stays within the bounds set by the first byte. -/
def isContinuation (low high b : UInt8) : Bool :=
  low ≤ b && b ≤ high

/-- Bounds of the second byte after the first byte of a longer character, with the character's
length: these rule out overlong forms, surrogates and what lies above the last code point. -/
def leadBounds (b : UInt8) : Option (Nat × UInt8 × UInt8) :=
  if 0xC2 ≤ b && b ≤ 0xDF then some (2, 0x80, 0xBF)
  else if b = 0xE0 then some (3, 0xA0, 0xBF)
  else if b = 0xED then some (3, 0x80, 0x9F)
  else if 0xE1 ≤ b && b ≤ 0xEF then some (3, 0x80, 0xBF)
  else if b = 0xF0 then some (4, 0x90, 0xBF)
  else if 0xF1 ≤ b && b ≤ 0xF3 then some (4, 0x80, 0xBF)
  else if b = 0xF4 then some (4, 0x80, 0x8F)
  else none

def lowBits (bits : Nat) (b : UInt8) : Nat :=
  b.toNat % Nat.pow 2 bits

/-- Reads bytes as text, with replacement characters where they are none. -/
def decodeLossy : List UInt8 → List Char
  | [] => []
  | [b] => if b < 0x80 then [Char.ofNat b.toNat] else [replacement]
  | b :: c :: rest =>
    if b < 0x80 then Char.ofNat b.toNat :: decodeLossy (c :: rest)
    else
      match leadBounds b with
      | none => replacement :: decodeLossy (c :: rest)
      | some (length, low, high) =>
        if !isContinuation low high c then replacement :: decodeLossy (c :: rest)
        else if length = 2 then
          Char.ofNat (lowBits 5 b * 64 + lowBits 6 c) :: decodeLossy rest
        else
          match rest with
          | [] => [replacement]
          | d :: rest =>
            if !isContinuation 0x80 0xBF d then replacement :: decodeLossy (d :: rest)
            else if length = 3 then
              Char.ofNat ((lowBits 4 b * 64 + lowBits 6 c) * 64 + lowBits 6 d) :: decodeLossy rest
            else
              match rest with
              | [] => [replacement]
              | e :: rest =>
                if !isContinuation 0x80 0xBF e then replacement :: decodeLossy (e :: rest)
                else
                  Char.ofNat (((lowBits 3 b * 64 + lowBits 6 c) * 64 + lowBits 6 d) * 64 + lowBits 6 e)
                    :: decodeLossy rest
termination_by bytes => bytes.length

end WikiPress.Text
