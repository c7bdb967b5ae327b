/-!
# Binary64 numbers

Double precision numbers as exact values, a sign with a significand and a power of two. Every
operation is the exact one on rationals followed by one rounding to the nearest number of the format,
a tie to the even significand.
-/

namespace WikiPress

/-- A finite number is `± significand * 2 ^ exponent`. Rounding gives the significand 53 bits, or
fewer at the least exponent. -/
inductive Binary64 where
  | finite (negative : Bool) (significand : Nat) (exponent : Int)
  | infinite (negative : Bool)
  | nan
  deriving DecidableEq, Repr

namespace Binary64

def leastExponent : Int := -1074

def greatestExponent : Int := 971

/-! ## Rounding -/

/-- The integer nearest to a quotient, a tie to the even one. -/
def roundHalfEven (num den : Nat) : Nat :=
  let quotient := num / den
  let rest := num % den
  if 2 * rest < den then quotient
  else if den < 2 * rest then quotient + 1
  else if quotient % 2 = 0 then quotient else quotient + 1

/-- Two numbers whose quotient is `num / den / 2 ^ e`. -/
def inUnits (e : Int) (num den : Nat) : Nat × Nat :=
  (num * Nat.pow 2 (-e).toNat, den * Nat.pow 2 e.toNat)

/-- The exponent at which a positive quotient has 53 bits before the point, or the least one. -/
def exponentOf (num den : Nat) : Int :=
  let guess : Int := max ((num.log2 : Int) - den.log2 - 53) leastExponent
  let (n, d) := inUnits guess num den
  if n < d * Nat.pow 2 53 then guess else guess + 1

/-- A rounded significand with its exponent; one that grew to 54 bits moves up. -/
def pack (negative : Bool) (significand : Nat) (e : Int) : Binary64 :=
  let (m, e) := if significand = Nat.pow 2 53 then (Nat.pow 2 52, e + 1) else (significand, e)
  if greatestExponent < e then .infinite negative else .finite negative m e

def zero (negative : Bool) : Binary64 :=
  .finite negative 0 leastExponent

def ofRatio (negative : Bool) (num den : Nat) : Binary64 :=
  if num = 0 then zero negative
  else
    let e := exponentOf num den
    let (n, d) := inUnits e num den
    pack negative (roundHalfEven n d) e

def ofNat (n : Nat) : Binary64 :=
  ofRatio false n 1

def ofInt (n : Int) : Binary64 :=
  ofRatio (n < 0) n.natAbs 1

/-! ## Arithmetic -/

def isNegative : Binary64 → Bool
  | .finite negative _ _ => negative
  | .infinite negative => negative
  | .nan => false

def isZero : Binary64 → Bool
  | .finite _ m _ => m = 0
  | _ => false

def isFinite : Binary64 → Bool
  | .finite .. => true
  | _ => false

def neg : Binary64 → Binary64
  | .finite negative m e => .finite (!negative) m e
  | .infinite negative => .infinite (!negative)
  | .nan => .nan

def powerRatio (e : Int) : Nat × Nat :=
  (Nat.pow 2 e.toNat, Nat.pow 2 (-e).toNat)

def mul : Binary64 → Binary64 → Binary64
  | .finite s m e, .finite t n f =>
    let (p, q) := powerRatio (e + f)
    ofRatio (s != t) (m * n * p) q
  | .nan, _ | _, .nan => .nan
  | x, y => if x.isZero || y.isZero then .nan else .infinite (x.isNegative != y.isNegative)

def div : Binary64 → Binary64 → Binary64
  | .finite s m e, .finite t n f =>
    if n = 0 then (if m = 0 then .nan else .infinite (s != t))
    else
      let (p, q) := powerRatio (e - f)
      ofRatio (s != t) (m * p) (n * q)
  | .nan, _ | _, .nan => .nan
  | .infinite _, .infinite _ => .nan
  | .infinite s, y => .infinite (s != y.isNegative)
  | x, .infinite t => zero (x.isNegative != t)

def ratio (negative : Bool) (m : Nat) (e : Int) : Int × Nat :=
  let (p, q) := powerRatio e
  (if negative then -(m * p : Int) else (m * p : Int), q)

/-- The order of the values; a number that is none is below nothing. -/
def le : Binary64 → Binary64 → Bool
  | .finite s m e, .finite t n f =>
    let (a, b) := ratio s m e
    let (c, d) := ratio t n f
    a * d ≤ c * b
  | .nan, _ | _, .nan => false
  | .infinite s, .infinite t => s || !t
  | .infinite s, _ => s
  | _, .infinite t => !t

/-! ## Whole numbers of 64 bits -/

def greatest64 : Nat := Nat.pow 2 64 - 1

/-- The whole part, kept within 64 bits without sign. -/
def truncate64 : Binary64 → Nat
  | .finite false m e =>
    let (p, q) := powerRatio e
    min (m * p / q) greatest64
  | .infinite false => greatest64
  | _ => 0

/-- The nearest whole number, a half going up, kept within 64 bits without sign. -/
def round64 : Binary64 → Nat
  | .finite false m e =>
    let (p, q) := powerRatio e
    min ((2 * (m * p) + q) / (2 * q)) greatest64
  | .infinite false => greatest64
  | _ => 0

end Binary64

end WikiPress
