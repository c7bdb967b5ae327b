import WikiPress.Binary64

/-!
# Shortest decimals

The fewest decimal digits that round back to a number, and of those the nearest. The digits come from
exact arithmetic: on the grid of `n` digits only the two neighbours of the value can lie in the
interval that rounds to it, so the first grid with a hit gives the answer.
-/

namespace WikiPress

/-- Significant digits, the first of them at the power `exponent` of ten. -/
structure Decimal where
  digits : List Char
  exponent : Int
  deriving DecidableEq, Repr

namespace Decimal

structure Layout where
  /-- Exponents written without an exponent mark. -/
  positional : Int → Bool
  /-- What follows a number that has no fraction. -/
  wholeTail : List Char

def zeros (n : Nat) : List Char :=
  List.replicate n '0'

def positionalText (layout : Layout) (x : Decimal) : List Char :=
  if x.exponent < 0 then
    ['0', '.'] ++ zeros (-x.exponent - 1).toNat ++ x.digits
  else
    let places := x.exponent.toNat + 1
    let whole := x.digits.take places
    let fraction := x.digits.drop places
    whole ++ zeros (places - whole.length) ++
      (if fraction.isEmpty then layout.wholeTail else '.' :: fraction)

def exponentText (x : Decimal) : List Char :=
  let fraction := x.digits.drop 1
  x.digits.take 1 ++ (if fraction.isEmpty then [] else '.' :: fraction) ++
    ['e', if x.exponent < 0 then '-' else '+'] ++ Nat.toDigits 10 x.exponent.natAbs

def text (layout : Layout) (x : Decimal) : List Char :=
  if layout.positional x.exponent then positionalText layout x else exponentText x

end Decimal

namespace Binary64

/-- The power of ten of the first digit of a positive quotient. -/
def decimalExponent (num den : Nat) : Int :=
  if den ≤ num then ((Nat.toDigits 10 (num / den)).length : Int) - 1
  else
    match (List.range 400).find? fun j => den ≤ num * Nat.pow 10 j with
    | some j => -(j : Int)
    | none => 0

def dropZerosEnd (cs : List Char) : List Char :=
  (cs.reverse.dropWhile (· == '0')).reverse

/-- The point of the grid of step `10 ^ g` that lies in the interval rounding to
`m * 2 ^ e`, the nearer one when both neighbours of the value do. -/
def gridPoint? (m : Nat) (e g : Int) : Option Nat :=
  let up := Nat.pow 2 (e - 2).toNat * Nat.pow 10 (-g).toNat
  let step := Nat.pow 2 (2 - e).toNat * Nat.pow 10 g.toNat
  let low := (if m = Nat.pow 2 52 ∧ leastExponent < e then 4 * m - 1 else 4 * m - 2) * up
  let high := (4 * m + 2) * up
  let closed := m % 2 = 0
  let inside (c : Nat) : Bool :=
    if closed then low ≤ c * step && c * step ≤ high else low < c * step && c * step < high
  let below := 4 * m * up / step
  let rest := 4 * m * up % step
  let nearest := if 2 * rest < step ∨ (2 * rest = step ∧ below % 2 = 0) then below else below + 1
  let other := if nearest = below then below + 1 else below
  if inside nearest then some nearest else if inside other then some other else none

def shortest (m : Nat) (e : Int) : Decimal :=
  let (p, q) := powerRatio e
  let k := decimalExponent (m * p) q
  let grids := (List.range 17).map fun n : Nat => k - n
  let hit := grids.findSome? fun g => (gridPoint? m e g).map fun c => (c, g)
  match hit with
  | none => ⟨['0'], 0⟩
  | some (c, g) =>
    let digits := Nat.toDigits 10 c
    ⟨dropZerosEnd digits, g + digits.length - 1⟩

def text (layout : Decimal.Layout) : Binary64 → List Char
  | .finite negative m e =>
    (if negative then ['-'] else []) ++
      (if m = 0 then '0' :: layout.wholeTail else (shortest m e).text layout)
  | .infinite negative => if negative then "-inf".toList else "inf".toList
  | .nan => "NaN".toList

/-- Every digit stands in its place, and whole numbers have no point. -/
def plainLayout : Decimal.Layout :=
  ⟨fun _ => true, []⟩

end Binary64

end WikiPress
