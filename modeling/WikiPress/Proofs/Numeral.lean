import Mathlib.Data.Nat.Digits.Defs
import WikiPress.Document.Node
import WikiPress.Proofs.Rounding
import WikiPress.Proofs.Trimming

/-!
# Numerals

A number attribute may be a text that spells the number. The reader goes from digit to digit and gives up as soon as
the number leaves 64 bits, so it reads exactly the numerals whose value is below `2 ^ 64`.
-/

namespace WikiPress.Text

/-! ## Digits -/

def digitChar (d : Fin 10) : Char :=
  Nat.digitChar d

theorem isDigit_digitChar : ∀ d, isDigit (digitChar d) = true := by
  decide

theorem digitValue_digitChar : ∀ d, digitValue (digitChar d) = d := by
  decide

theorem isBlank_digitChar : ∀ d, isBlank (digitChar d) = false := by
  decide

theorem digitChar_ne_plus : ∀ d, digitChar d ≠ '+' := by
  decide

theorem exists_digitChar {c : Char} (h : isDigit c = true) : ∃ d, digitChar d = c := by
  obtain ⟨hlow, hhigh⟩ : 48 ≤ c.toNat ∧ c.toNat ≤ 57 := by
    simpa [isDigit, Char.le_def, UInt32.le_iff_toNat_le] using h
  have hlt : c.toNat - 48 < 10 := by omega
  refine ⟨⟨c.toNat - 48, hlt⟩, Char.toNat_inj.1 ?_⟩
  rw [digitChar, Nat.toNat_digitChar_of_lt_ten hlt]
  omega

/-! ## Values -/

/-- The number that digits are the digits of, the greatest first. -/
def placeValue (digits : List (Fin 10)) : Nat :=
  Nat.ofDigits 10 (digits.map Fin.val).reverse

/-- A number with further digits behind its own. -/
def extend (n : Nat) (digits : List (Fin 10)) : Nat :=
  n * Nat.pow 10 digits.length + placeValue digits

theorem extend_zero (digits : List (Fin 10)) : extend 0 digits = placeValue digits := by
  rw [extend, Nat.zero_mul, Nat.zero_add]

theorem extend_nil (n : Nat) : extend n [] = n :=
  Nat.mul_one n

theorem extend_cons (n : Nat) (d : Fin 10) (digits : List (Fin 10)) :
    extend n (d :: digits) = extend (10 * n + d) digits := by
  have hplace : placeValue (d :: digits) = placeValue digits + Nat.pow 10 digits.length * d := by
    rw [placeValue, List.map_cons, Nat.ofDigits_reverse_cons, List.length_map]
    rfl
  have hpow : Nat.pow 10 (d :: digits).length = Nat.pow 10 digits.length * 10 := rfl
  rw [extend, extend, hplace, hpow]
  ring

theorem le_extend (n : Nat) (digits : List (Fin 10)) : n ≤ extend n digits :=
  Nat.le_trans (Nat.le_mul_of_pos_right n (Nat.pow_pos (by decide))) (Nat.le_add_right ..)

/-! ## Reading digit by digit -/

theorem pushDigit?_digitChar (n : Nat) (d : Fin 10) : pushDigit? n (digitChar d) =
    if 10 * n + d < Nat.pow 2 64 then some (10 * n + d) else none := by
  simp [pushDigit?, isDigit_digitChar, digitValue_digitChar]

theorem isDigit_of_pushDigit? {n m : Nat} {c : Char} (h : pushDigit? n c = some m) : isDigit c = true := by
  rw [pushDigit?, Option.ite_none_right_eq_some, Bool.and_eq_true] at h
  exact h.1.1

/-- Further digits never make a number smaller, so nothing is lost by giving up at the first that is too much. -/
theorem foldlM_pushDigit? (digits : List (Fin 10)) {n : Nat} (hn : n < Nat.pow 2 64) :
    (digits.map digitChar).foldlM pushDigit? n =
      if extend n digits < Nat.pow 2 64 then some (extend n digits) else none := by
  induction digits generalizing n with
  | nil =>
    rw [extend_nil, if_pos hn]
    rfl
  | cons d digits ih =>
    rw [extend_cons, List.map_cons, List.foldlM_cons, pushDigit?_digitChar]
    by_cases hd : 10 * n + d < Nat.pow 2 64
    · rw [if_pos hd]
      exact ih hd
    · have hfull : ¬extend (10 * n + d) digits < Nat.pow 2 64 := fun h =>
        hd (Nat.lt_of_le_of_lt (le_extend ..) h)
      rw [if_neg hd, if_neg hfull]
      rfl

theorem exists_digits_of_foldlM {cs : List Char} {n m : Nat} (h : cs.foldlM pushDigit? n = some m) :
    ∃ digits : List (Fin 10), digits.map digitChar = cs := by
  induction cs generalizing n with
  | nil => exact ⟨[], rfl⟩
  | cons c cs ih =>
    rw [List.foldlM_cons, Option.bind_eq_bind, Option.bind_eq_some_iff] at h
    obtain ⟨k, hk, hrest⟩ := h
    obtain ⟨d, rfl⟩ := exists_digitChar (isDigit_of_pushDigit? hk)
    obtain ⟨digits, rfl⟩ := ih hrest
    exact ⟨d :: digits, rfl⟩

/-! ## Signs -/

/-- What stands before the digits of a number. -/
def sign (plus : Bool) : List Char :=
  if plus then ['+'] else []

theorem isBlank_of_mem_sign {plus : Bool} {c : Char} (h : c ∈ sign plus) : isBlank c = false := by
  cases plus with
  | true =>
    obtain rfl := List.mem_singleton.1 h
    decide
  | false => cases h

theorem dropPlus_cons_of_ne {c : Char} (h : c ≠ '+') (cs : List Char) : dropPlus (c :: cs) = c :: cs := by
  unfold dropPlus
  split
  · rename_i heq
    exact absurd (List.cons.inj heq).1 h
  · rfl

theorem dropPlus_sign (plus : Bool) {digits : List (Fin 10)} (h : digits ≠ []) :
    dropPlus (sign plus ++ digits.map digitChar) = digits.map digitChar := by
  cases plus with
  | true => rfl
  | false =>
    cases digits with
    | nil => exact absurd rfl h
    | cons d digits => exact dropPlus_cons_of_ne (digitChar_ne_plus d) _

theorem exists_sign (cs : List Char) : ∃ plus, sign plus ++ dropPlus cs = cs := by
  unfold dropPlus
  split
  · exact ⟨true, rfl⟩
  · exact ⟨false, rfl⟩

theorem unsigned64?_sign (plus : Bool) {digits : List (Fin 10)} (h : digits ≠ []) :
    unsigned64? (.ofList (sign plus ++ digits.map digitChar)) =
      if placeValue digits < Nat.pow 2 64 then some (placeValue digits) else none := by
  rw [unsigned64?, String.toList_ofList, dropPlus_sign plus h, ← extend_zero,
    ← foldlM_pushDigit? digits (Nat.two_pow_pos 64)]
  cases digits with
  | nil => exact absurd rfl h
  | cons d digits => rfl

theorem exists_of_unsigned64? {s : String} {n : Nat} (h : unsigned64? s = some n) :
    ∃ plus digits, digits ≠ [] ∧ s.toList = sign plus ++ digits.map digitChar := by
  obtain ⟨plus, hplus⟩ := exists_sign s.toList
  rw [unsigned64?] at h
  split at h
  · cases h
  · rename_i hne
    obtain ⟨digits, hdigits⟩ := exists_digits_of_foldlM h
    refine ⟨plus, digits, ?_, ?_⟩
    · intro hnil
      rw [hnil] at hdigits
      exact hne hdigits.symm
    · rw [hdigits, hplus]

/-! ## Numerals -/

/-- A number as a text may spell it: an optional plus sign and digits, the greatest first, with blanks around. The
digits may begin with zeros. -/
structure Numeral where
  before : List Char
  plus : Bool
  digits : List (Fin 10)
  after : List Char
  before_blank : ∀ c ∈ before, isBlank c = true
  digits_ne_nil : digits ≠ []
  after_blank : ∀ c ∈ after, isBlank c = true

namespace Numeral

def text (x : Numeral) : String :=
  .ofList (x.before ++ (sign x.plus ++ x.digits.map digitChar) ++ x.after)

def value (x : Numeral) : Nat :=
  placeValue x.digits

theorem isBlank_core (x : Numeral) : ∀ c ∈ sign x.plus ++ x.digits.map digitChar, isBlank c = false := by
  intro c hc
  obtain hc | hc := List.mem_append.1 hc
  · exact isBlank_of_mem_sign hc
  · obtain ⟨d, -, rfl⟩ := List.mem_map.1 hc
    exact isBlank_digitChar d

theorem unsigned64?_trim_text (x : Numeral) :
    unsigned64? (trim x.text) = if x.value < Nat.pow 2 64 then some x.value else none := by
  rw [trim, text, String.toList_ofList, dropBlanks_surrounded x.before_blank x.isBlank_core x.after_blank]
  exact unsigned64?_sign x.plus x.digits_ne_nil

end Numeral

theorem exists_numeral {s : String} {n : Nat} (h : unsigned64? (trim s) = some n) : ∃ x : Numeral, x.text = s := by
  obtain ⟨before, after, hs, hbefore, hafter⟩ := exists_trim s
  obtain ⟨plus, digits, hdigits, hcore⟩ := exists_of_unsigned64? h
  refine ⟨⟨before, plus, digits, after, hbefore, hdigits, hafter⟩, ?_⟩
  rw [Numeral.text, ← hcore, ← hs, String.ofList_toList]

/-- What a text is read as: the number that it spells, if it spells one and that is below `2 ^ 64`. -/
inductive ReadsAs (s : String) : Option Nat → Prop
  | number (x : Numeral) : x.text = s → x.value < Nat.pow 2 64 → ReadsAs s (some x.value)
  | tooGreat (x : Numeral) : x.text = s → Nat.pow 2 64 ≤ x.value → ReadsAs s none
  | noNumeral : (∀ x : Numeral, x.text ≠ s) → ReadsAs s none

theorem exists_readsAs (s : String) : ∃ answer, ReadsAs s answer := by
  by_cases h : ∃ x : Numeral, x.text = s
  · obtain ⟨x, hx⟩ := h
    rcases Nat.lt_or_ge x.value (Nat.pow 2 64) with hfits | hfull
    · exact ⟨_, .number x hx hfits⟩
    · exact ⟨_, .tooGreat x hx hfull⟩
  · exact ⟨_, .noNumeral fun x hx => h ⟨x, hx⟩⟩

theorem ReadsAs.eq {s : String} {answer : Option Nat} (h : ReadsAs s answer) : unsigned64? (trim s) = answer := by
  cases h with
  | number x hx hfits => rw [← hx, x.unsigned64?_trim_text, if_pos hfits]
  | tooGreat x hx hfull => rw [← hx, x.unsigned64?_trim_text, if_neg (Nat.not_lt.2 hfull)]
  | noNumeral hnone =>
    refine Option.eq_none_iff_forall_ne_some.2 fun n hn => ?_
    obtain ⟨x, hx⟩ := exists_numeral hn
    exact hnone x hx

theorem unsigned64?_trim_eq_iff (s : String) (answer : Option Nat) :
    unsigned64? (trim s) = answer ↔ ReadsAs s answer := by
  refine ⟨fun h => ?_, ReadsAs.eq⟩
  obtain ⟨other, hother⟩ := exists_readsAs s
  rwa [← h, hother.eq]

end WikiPress.Text

/-! ## Number attributes -/

namespace WikiPress

open Text (ReadsAs)

theorem Binary64.truncate64_of_isWhole {x : Binary64} {n : Nat} (h : x.IsWhole n) :
    x.truncate64 = min n greatest64 := by
  obtain ⟨m, e, rfl, hm⟩ := h
  have hpos : 0 < Nat.pow 2 (-e).toNat := Nat.two_pow_pos _
  rw [truncate64, powerRatio]
  dsimp only
  rw [hm, Nat.mul_div_cancel n hpos]

namespace Node

section
variable {node : Node} {key : String}

theorem unsigned64?_of_string {s : String} (h : node.attr? key = some (.string s)) :
    node.unsigned64? key = Text.unsigned64? (Text.trim s) := by
  rw [unsigned64?, h]

theorem unsigned64?_of_number {n : Json.Number} (h : node.attr? key = some (.number n)) :
    node.unsigned64? key = some n.toUnsigned64 := by
  rw [unsigned64?, h]

end

/-- **Reading a number attribute.** A text is read as what it spells, within 64 bits. A whole number is read as itself,
and so is one within 64 bits that is a double. -/
theorem numberAttribute_readsAs (node : Node) (key : String) :
    (∀ s, node.attr? key = some (.string s) → ∀ answer, node.unsigned64? key = answer ↔ ReadsAs s answer) ∧
      (∀ n : Nat, node.attr? key = some (.number (.integer n)) → node.unsigned64? key = some n) ∧
      ∀ (n : Nat) (x : Binary64), node.attr? key = some (.number (.float x)) → x.IsWhole n → n < Nat.pow 2 64 →
        node.unsigned64? key = some n := by
  refine ⟨?_, ?_, ?_⟩
  · intro s hs answer
    rw [unsigned64?_of_string hs]
    exact Text.unsigned64?_trim_eq_iff s answer
  · intro n hn
    rw [unsigned64?_of_number hn, Json.Number.toUnsigned64, Int.toNat_natCast]
  · intro n x hx hwhole hfits
    have hmost : n ≤ Binary64.greatest64 := Nat.le_pred_of_lt hfits
    rw [unsigned64?_of_number hx, Json.Number.toUnsigned64, Binary64.truncate64_of_isWhole hwhole]
    rw [Nat.min_eq_left hmost]

/-- The greatest number with all that may stand around it, the first one that is too great, and two that are no
texts. -/
theorem numberAttribute_readsAs_limits :
    let node : Node := { type := "tableCell", attrs := [
      ("colspan", .string "\u2003+0018446744073709551615\n"), ("level", .number (.float (.ofNat 2))),
      ("rowspan", .string "18446744073709551616"), ("width", .number (.integer 760))] }
    node.attr? "colspan" = some (.string "\u2003+0018446744073709551615\n") ∧
      ReadsAs "\u2003+0018446744073709551615\n" (some 18446744073709551615) ∧
      node.attr? "rowspan" = some (.string "18446744073709551616") ∧ ReadsAs "18446744073709551616" none ∧
      node.unsigned64? "width" = some 760 ∧ node.unsigned64? "level" = some 2 := by
  intro node
  have hcolspan : node.attr? "colspan" = some (.string "\u2003+0018446744073709551615\n") := by decide +kernel
  have hrowspan : node.attr? "rowspan" = some (.string "18446744073709551616") := by decide +kernel
  have hwidth : node.attr? "width" = some (.number (.integer 760)) := by decide +kernel
  have hlevel : node.attr? "level" = some (.number (.float (.ofNat 2))) := by decide +kernel
  refine ⟨hcolspan, ?_, hrowspan, ?_, ?_, ?_⟩
  · exact ((numberAttribute_readsAs node "colspan").1 _ hcolspan _).1 (by decide +kernel)
  · exact ((numberAttribute_readsAs node "rowspan").1 _ hrowspan _).1 (by decide +kernel)
  · exact (numberAttribute_readsAs node "width").2.1 760 hwidth
  · exact (numberAttribute_readsAs node "level").2.2 2 _ hlevel (Binary64.ofNat_isWhole (by decide)) (by decide)

end Node

end WikiPress
