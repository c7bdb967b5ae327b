import WikiPress.Text.Digits

/-!
# Punycode

Decoding of the labels of host names that stand for characters outside ASCII. The code points are
inserted in ascending order, each by a difference to the last in digits of base 36 whose weights adapt
to what was read.
-/

namespace WikiPress.Url.Punycode

def digit? (c : Char) : Option Nat :=
  if Text.isDigit c then some (Text.digitValue c + 26)
  else if 'a' ≤ c && c ≤ 'z' then some (c.toNat - 'a'.toNat)
  else if 'A' ≤ c && c ≤ 'Z' then some (c.toNat - 'A'.toNat)
  else none

def threshold (k bias : Nat) : Nat :=
  min 26 (max 1 (k - bias))

/-- Divides by 35 down to 455, and counts 36 for each division. -/
def settle (delta k : Nat) : Nat × Nat :=
  if 455 < delta then settle (delta / 35) (k + 36) else (delta, k)
termination_by delta

def adapt (delta points : Nat) (first : Bool) : Nat :=
  let damped := if first then delta / 700 else delta / 2
  let (rest, k) := settle (damped + damped / points) 0
  k + 36 * rest / (rest + 38)

/-- What has been decoded: the characters, the last code point and the place after it, and the
adaptation. -/
structure State where
  output : List Char
  point : Nat := 128
  index : Nat := 0
  bias : Nat := 72

/-- Adds up the digits of a difference, inserts the character when they end, and goes on. `start` is
the index at which the difference began. -/
def decodeDigits (state : State) (index weight k : Nat) : List Char → Option State
  | [] => if weight = 1 ∧ k = 36 then some state else none
  | c :: cs => do
    let d ← digit? c
    let index := index + d * weight
    let t := threshold k state.bias
    if Nat.pow 2 32 ≤ index then none
    else if d < t then
      let points := state.output.length + 1
      let point := state.point + index / points
      let place := index % points
      if 0x110000 ≤ point ∨ (0xD800 ≤ point ∧ point < 0xE000) then none
      else
        let output := state.output.take place ++ Char.ofNat point :: state.output.drop place
        let bias := adapt (index - state.index) points (state.index = 0)
        decodeDigits ⟨output, point, place + 1, bias⟩ (place + 1) 1 36 cs
    else decodeDigits state index (weight * (36 - t)) (k + 36) cs

def decode? (cs : List Char) : Option (List Char) :=
  let tail := (cs.reverse.takeWhile (· != '-')).reverse
  let head := (cs.take (cs.length - tail.length)).dropLast
  (decodeDigits { output := head } 0 1 36 tail).map (·.output)

end WikiPress.Url.Punycode
