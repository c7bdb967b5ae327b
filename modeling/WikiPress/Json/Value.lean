import WikiPress.Binary64
import WikiPress.Dictionary

/-!
# JSON values

The values of the data format. A number written as an integer of 64 bits stays one, and every other
number is a double. The fields of an object are a list sorted by key, so that two objects are equal
exactly when their lists are.
-/

namespace WikiPress.Json

inductive Number where
  | integer (n : Int)
  | float (x : Binary64)
  deriving DecidableEq, Repr

inductive Value where
  | null
  | boolean (b : Bool)
  | number (n : Number)
  | string (s : String)
  | array (items : List Value)
  | object (fields : List (String × Value))
  deriving Repr

abbrev Fields := Dictionary Value

/-! ## Numbers -/

namespace Number

/-- The integers with a form of their own: those of 64 bits, with or without sign. -/
def isInteger64 (n : Int) : Bool :=
  -(Nat.pow 2 63 : Int) ≤ n && n < (Nat.pow 2 64 : Int)

def toBinary64 : Number → Binary64
  | .integer n => .ofInt n
  | .float x => x

/-- The number without sign and fraction, kept within 64 bits. -/
def toUnsigned64 : Number → Nat
  | .integer n => n.toNat
  | .float x => x.truncate64

end Number

/-! ## Fields -/

namespace Fields

def text? (key : String) (fields : Fields) : Option String :=
  match fields.lookup key with
  | some (.string s) => some s
  | _ => none

def number? (key : String) (fields : Fields) : Option Number :=
  match fields.lookup key with
  | some (.number n) => some n
  | _ => none

theorem text?_eq_some {fields : Fields} {key text : String} :
    fields.text? key = some text ↔ fields.lookup key = some (.string text) := by
  unfold text?
  cases fields.lookup key with
  | none => simp
  | some value => cases value <;> simp

theorem number?_eq_some {fields : Fields} {key : String} {n : Number} :
    fields.number? key = some n ↔ fields.lookup key = some (.number n) := by
  unfold number?
  cases fields.lookup key with
  | none => simp
  | some value => cases value <;> simp

end Fields

/-! ## Values -/

namespace Value

def text? : Value → Option String
  | .string s => some s
  | _ => none

def get? (key : String) : Value → Option Value
  | .object fields => fields.lookup key
  | _ => none

mutual

def beq : Value → Value → Bool
  | .null, .null => true
  | .boolean a, .boolean b => a == b
  | .number m, .number n => m == n
  | .string s, .string t => s == t
  | .array xs, .array ys => beqItems xs ys
  | .object xs, .object ys => beqFields xs ys
  | _, _ => false

def beqItems : List Value → List Value → Bool
  | [], [] => true
  | x :: xs, y :: ys => beq x y && beqItems xs ys
  | _, _ => false

def beqFields : List (String × Value) → List (String × Value) → Bool
  | [], [] => true
  | (k, x) :: xs, (l, y) :: ys => k == l && beq x y && beqFields xs ys
  | _, _ => false

end

mutual

theorem beq_iff : ∀ v w : Value, beq v w = true ↔ v = w
  | .null, w => by cases w <;> simp [beq]
  | .boolean _, w => by cases w <;> simp [beq]
  | .number _, w => by cases w <;> simp [beq]
  | .string _, w => by cases w <;> simp [beq]
  | .array xs, w => by cases w <;> simp [beq, beqItems_iff xs]
  | .object xs, w => by cases w <;> simp [beq, beqFields_iff xs]

theorem beqItems_iff : ∀ xs ys : List Value, beqItems xs ys = true ↔ xs = ys
  | [], ys => by cases ys <;> simp [beqItems]
  | x :: xs, ys => by cases ys <;> simp [beqItems, beq_iff x, beqItems_iff xs]

theorem beqFields_iff : ∀ xs ys : List (String × Value), beqFields xs ys = true ↔ xs = ys
  | [], ys => by cases ys <;> simp [beqFields]
  | (k, x) :: xs, ys => by
    cases ys <;> simp [beqFields, beq_iff x, beqFields_iff xs, Prod.ext_iff, and_assoc]

end

instance : DecidableEq Value := fun v w =>
  decidable_of_iff (beq v w = true) (beq_iff v w)

end Value

end WikiPress.Json
