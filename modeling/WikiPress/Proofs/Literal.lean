import WikiPress.Json.Source

/-!
# Printed scalars

Words, whole numbers and strings as the printer writes them, in front of whatever the rest of a text may be, are
scanned to their end and mean what was printed.
-/

namespace WikiPress.Json

/-! ## Blanks and words -/

namespace Cursor

theorem dropWhile_blanks {blanks rest : List Char} (h : ∀ c ∈ blanks, isSpace c = true)
    (hrest : ∀ c ∈ rest.head?, isSpace c = false) : (blanks ++ rest).dropWhile isSpace = rest := by
  induction blanks with
  | nil =>
    cases rest with
    | nil => rfl
    | cons c rest => rw [List.nil_append, List.dropWhile_cons, hrest c rfl, if_neg (by decide)]
  | cons b blanks ih =>
    rw [List.cons_append, List.dropWhile_cons, h b (List.mem_cons_self ..), if_pos rfl]
    exact ih fun c hc => h c (List.mem_cons_of_mem _ hc)

theorem rest_skipSpace {at' : Cursor} {blanks rest : List Char} (hat : at'.rest = blanks ++ rest)
    (h : ∀ c ∈ blanks, isSpace c = true) (hrest : ∀ c ∈ rest.head?, isSpace c = false) : at'.skipSpace.rest = rest := by
  rw [skipSpace, hat]
  exact dropWhile_blanks h hrest

theorem skipSpace_skipSpace (at' : Cursor) : at'.skipSpace.skipSpace = at'.skipSpace := by
  have hidem : (at'.rest.dropWhile isSpace).dropWhile isSpace = at'.rest.dropWhile isSpace ∧
      (at'.rest.dropWhile isSpace).takeWhile isSpace = [] := by
    induction at'.rest with
    | nil => exact ⟨rfl, rfl⟩
    | cons c cs ih =>
      by_cases hc : isSpace c = true
      · rw [List.dropWhile_cons, if_pos hc]
        exact ih
      · rw [List.dropWhile_cons, if_neg hc, List.dropWhile_cons, if_neg hc, List.takeWhile_cons, if_neg hc]
        exact ⟨rfl, rfl⟩
  simp only [skipSpace, hidem.1, hidem.2, List.length_nil, Nat.add_zero]

theorem skip_one {at' : Cursor} {c : Char} {rest : List Char} (h : at'.rest = c :: rest) :
    at'.skip 1 = ⟨rest, at'.offset + 1⟩ := by
  rw [skip, h, List.drop_one, List.tail_cons]

end Cursor

theorem scanWord_append (word rest : List Char) (offset : Nat) :
    scanWord word ⟨word ++ rest, offset⟩ = .ok ⟨rest, offset + word.length⟩ := by
  induction word generalizing offset with
  | nil => rfl
  | cons w word ih =>
    have hstep : scanWord (w :: word) ⟨w :: word ++ rest, offset⟩ = scanWord word ⟨word ++ rest, offset + 1⟩ := by
      simp [scanWord]
    rw [hstep, ih, List.length_cons, Nat.add_assoc, Nat.add_comm 1]

/-! ## Numbers -/

/-- What may stand behind a number, so that the number ends there. -/
def EndsNumber (rest : List Char) : Prop :=
  ∀ c ∈ rest.head?, Text.isDigit c = false ∧ c ≠ '.' ∧ c ≠ 'e' ∧ c ≠ 'E'

theorem isDigit_of_mem_toDigits {n : Nat} {c : Char} (h : c ∈ Nat.toDigits 10 n) : Text.isDigit c = true :=
  Nat.isDigit_of_mem_toDigits (by decide) (by decide) h

theorem decimalValue_toDigits (n : Nat) : Text.decimalValue (Nat.toDigits 10 n) = n :=
  Nat.ofDigitChars_ten_toDigits

/-- The digits of a number start with zero in the number zero only. -/
theorem toDigits_eq_cons {n : Nat} {ds : List Char} (h : Nat.toDigits 10 n = '0' :: ds) : ds = [] := by
  induction n using Nat.strongRecOn generalizing ds with
  | _ n ih =>
    rw [Nat.toDigits_eq_if (by decide)] at h
    split at h
    · exact (List.cons.inj h).2.symm
    · rename_i hbase
      have hpos : 0 < n / 10 := by omega
      cases hhigh : Nat.toDigits 10 (n / 10) with
      | nil => exact absurd hhigh Nat.toDigits_ne_nil
      | cons d high =>
        rw [hhigh] at h
        obtain ⟨rfl, -⟩ := List.cons.inj h
        have hnil := ih (n / 10) (by omega) hhigh
        have hzero := decimalValue_toDigits (n / 10)
        rw [hhigh, hnil] at hzero
        have : Text.decimalValue ['0'] = 0 := by decide
        omega

theorem digitsAt_append {ds rest : List Char} (h : ∀ c ∈ ds, Text.isDigit c = true)
    (hrest : ∀ c ∈ rest.head?, Text.isDigit c = false) (offset : Nat) :
    digitsAt ⟨ds ++ rest, offset⟩ = (ds, ⟨rest, offset + ds.length⟩) := by
  have htake : (ds ++ rest).takeWhile Text.isDigit = ds := by
    induction ds with
    | nil =>
      cases rest with
      | nil => rfl
      | cons c rest => rw [List.nil_append, List.takeWhile_cons, hrest c rfl, if_neg (by decide)]
    | cons d ds ih =>
      rw [List.cons_append, List.takeWhile_cons, h d (List.mem_cons_self ..), if_pos rfl]
      rw [ih fun c hc => h c (List.mem_cons_of_mem _ hc)]
  simp only [digitsAt, htake, Cursor.skip, List.drop_left]

section
variable {rest : List Char} (hrest : EndsNumber rest)
include hrest

theorem scanWhole_toDigits (n offset : Nat) : scanWhole ⟨Nat.toDigits 10 n ++ rest, offset⟩ =
    .ok (Nat.toDigits 10 n, ⟨rest, offset + (Nat.toDigits 10 n).length⟩) := by
  have hdigits : digitsAt ⟨Nat.toDigits 10 n ++ rest, offset⟩ =
      (Nat.toDigits 10 n, ⟨rest, offset + (Nat.toDigits 10 n).length⟩) :=
    digitsAt_append (fun c hc => isDigit_of_mem_toDigits hc) (fun c hc => (hrest c hc).1) offset
  cases hn : Nat.toDigits 10 n with
  | nil => exact absurd hn Nat.toDigits_ne_nil
  | cons d ds =>
    rw [hn] at hdigits
    by_cases hzero : d = '0'
    · subst hzero
      obtain rfl := toDigits_eq_cons hn
      cases rest with
      | nil => rfl
      | cons c rest => exact if_neg (by rw [(hrest c rfl).1]; decide)
    · unfold scanWhole
      split
      · rename_i hother
        exact absurd (List.cons.inj hother).1 hzero
      · rw [hdigits]
        rfl

theorem scanFraction_none (offset : Nat) : scanFraction ⟨rest, offset⟩ = .ok (none, ⟨rest, offset⟩) := by
  unfold scanFraction
  split
  · rename_i tail hdot
    obtain rfl : rest = '.' :: tail := hdot
    exact absurd rfl (hrest '.' rfl).2.1
  · rfl

theorem scanExponent_none (offset : Nat) : scanExponent ⟨rest, offset⟩ = .ok (none, offset, ⟨rest, offset⟩) := by
  unfold scanExponent
  split
  · rename_i tail he
    obtain rfl : rest = 'e' :: tail := he
    exact absurd rfl (hrest 'e' rfl).2.2.1
  · rename_i tail he
    obtain rfl : rest = 'E' :: tail := he
    exact absurd rfl (hrest 'E' rfl).2.2.2
  · rfl

theorem scanNumber_integerText (n : Int) (offset : Nat) : ∃ exponentStart next,
    scanNumber ⟨integerText n ++ rest, offset⟩ =
      .ok ⟨⟨decide (n < 0), Nat.toDigits 10 n.natAbs, none, none⟩, exponentStart, ⟨rest, next⟩⟩ := by
  have hdigits := scanWhole_toDigits hrest n.natAbs
  have hfraction := scanFraction_none hrest
  have hexponent := scanExponent_none hrest
  unfold integerText scanNumber
  by_cases hneg : n < 0
  · rw [if_pos hneg, decide_eq_true hneg]
    refine ⟨offset + 1 + (Nat.toDigits 10 n.natAbs).length, offset + 1 + (Nat.toDigits 10 n.natAbs).length, ?_⟩
    simp only [List.cons_append, Cursor.skip, List.drop_succ_cons, List.drop_zero, bind, Except.bind, hdigits,
      hfraction, hexponent]
  · rw [if_neg hneg, decide_eq_false hneg]
    refine ⟨offset + (Nat.toDigits 10 n.natAbs).length, offset + (Nat.toDigits 10 n.natAbs).length, ?_⟩
    split
    rename_i negative start hsign
    split at hsign
    · rename_i tail hminus
      have hhead : ('-' : Char) ∈ Nat.toDigits 10 n.natAbs := by
        cases hn : Nat.toDigits 10 n.natAbs with
        | nil => exact absurd hn Nat.toDigits_ne_nil
        | cons d ds =>
          rw [hn] at hminus
          obtain rfl : d = '-' := (List.cons.inj hminus).1
          exact List.mem_cons_self ..
      exact absurd (isDigit_of_mem_toDigits hhead) (by decide)
    · obtain ⟨rfl, rfl⟩ := Prod.mk.inj hsign
      simp only [bind, Except.bind, hdigits, hfraction, hexponent]

end

theorem isDigit_of_mem_integerText {n : Int} {c : Char} (h : c ∈ integerText n) : c = '-' ∨ Text.isDigit c = true := by
  unfold integerText at h
  split at h
  · obtain rfl | h := List.mem_cons.1 h
    · exact .inl rfl
    · exact .inr (isDigit_of_mem_toDigits h)
  · exact .inr (isDigit_of_mem_toDigits h)

theorem integerText_ne_nil (n : Int) : integerText n ≠ [] := by
  unfold integerText
  split
  · exact List.cons_ne_nil _ _
  · exact Nat.toDigits_ne_nil

theorem integerText_eq_cons (n : Int) : ∃ c cs, integerText n = c :: cs ∧ (c = '-' ∨ Text.isDigit c = true) := by
  obtain ⟨c, cs, hcs⟩ := List.exists_cons_of_ne_nil (integerText_ne_nil n)
  exact ⟨c, cs, hcs, isDigit_of_mem_integerText (hcs ▸ List.mem_cons_self ..)⟩

theorem value_integerText {n : Int} (h : Number.isInteger64 n = true) (exponentStart stop : Nat) :
    NumberLiteral.value ⟨decide (n < 0), Nat.toDigits 10 n.natAbs, none, none⟩ exponentStart stop =
      .ok (.integer n) := by
  have hn : (if decide (n < 0) = true then -(n.natAbs : Int) else n.natAbs) = n := by
    by_cases hneg : n < 0
    · rw [if_pos (decide_eq_true hneg)]
      omega
    · rw [if_neg (by simp [hneg])]
      omega
  have hzero : ¬(decide (n < 0) = true ∧ n = 0) := by
    rintro ⟨hneg, rfl⟩
    exact absurd hneg (by decide)
  simp only [NumberLiteral.value, decimalValue_toDigits, hn]
  exact if_pos ⟨rfl, rfl, h, hzero⟩

/-! ## Strings -/

theorem hex4?_control : ∀ n < 0x20, hex4? '0' '0' (hexDigit (n / 16)) (hexDigit (n % 16)) = some n := by
  decide

section
variable {state : StringState} (hpending : state.pending = none)
include hpending

theorem settle_of_clear (offset : Nat) : state.settle offset = state := by
  rw [StringState.settle, hpending]

theorem scanString_escape {e c : Char} (he : e ≠ 'u') (hc : unescaped? e = some c) (offset : Nat) (rest : List Char) :
    scanString state offset ('\\' :: e :: rest) = scanString (state.push c) (offset + 2) rest := by
  rw [scanString.eq_5 _ _ _ _ (fun _ _ _ _ _ hu => absurd hu he) he, hc, settle_of_clear hpending]

theorem scanString_control {c : Char} (hc : c.toNat < 0x20) (offset : Nat) (rest : List Char) :
    scanString state offset ('\\' :: 'u' :: '0' :: '0' :: hexDigit (c.toNat / 16) :: hexDigit (c.toNat % 16) :: rest) =
      scanString (state.push c) (offset + 6) rest := by
  have hunit : state.pushUnit c.toNat (offset + 6) = state.push c := by
    simp only [StringState.pushUnit, hpending, Char.ofNat_toNat]
    rw [if_neg (by omega), if_neg (by omega)]
  rw [scanString, hex4?_control _ hc]
  exact congrArg (scanString · (offset + 6) rest) hunit

theorem scanString_plain {c : Char} (hquote : c ≠ '"') (hescape : c ≠ '\\') (hc : ¬c.toNat < 0x20) (offset : Nat)
    (rest : List Char) :
    scanString state offset (c :: rest) = scanString (state.push c) (offset + c.utf8Size) rest := by
  rw [scanString.eq_7 _ _ _ _ hquote (fun _ _ _ _ _ h => absurd h hescape) (fun _ h => absurd h hescape)
    (fun _ _ h => absurd h hescape) (fun h => absurd h hescape), if_neg hc, settle_of_clear hpending]

/-- A character as the printer writes it is scanned in one step. -/
theorem scanString_escapedChar (c : Char) (offset : Nat) (rest : List Char) :
    ∃ offset', scanString state offset (escapedChar c ++ rest) = scanString (state.push c) offset' rest := by
  have hshort : ∀ e, e ≠ 'u' → unescaped? e = some c →
      ∃ offset', scanString state offset ('\\' :: e :: rest) = scanString (state.push c) offset' rest :=
    fun e he hc => ⟨_, scanString_escape hpending he hc offset rest⟩
  unfold escapedChar
  split
  · exact hshort '"' (by decide) rfl
  · exact hshort '\\' (by decide) rfl
  · exact hshort 'b' (by decide) rfl
  · exact hshort 't' (by decide) rfl
  · exact hshort 'n' (by decide) rfl
  · exact hshort 'f' (by decide) rfl
  · exact hshort 'r' (by decide) rfl
  · rename_i hquote hescape _ _ _ _ _
    split
    · rename_i hcontrol
      exact ⟨_, scanString_control hpending hcontrol offset rest⟩
    · rename_i hplain
      exact ⟨_, scanString_plain hpending hquote hescape hplain offset rest⟩

end

theorem scanString_chars (text rest : List Char) (state : StringState) (hpending : state.pending = none)
    (hfault : state.fault = none) (offset : Nat) : ∃ next,
      scanString state offset (text.flatMap escapedChar ++ '"' :: rest) =
        .ok ⟨.ok (.ofList (state.reversed.reverse ++ text)), ⟨rest, next⟩⟩ := by
  induction text generalizing state offset with
  | nil =>
    refine ⟨offset + 1, ?_⟩
    rw [List.flatMap_nil, List.nil_append, List.append_nil]
    rw [scanString, settle_of_clear hpending, StringState.value, hfault]
  | cons c text ih =>
    obtain ⟨offset', hstep⟩ := scanString_escapedChar hpending c offset (text.flatMap escapedChar ++ '"' :: rest)
    obtain ⟨next, hrest⟩ := ih (state.push c) hpending hfault offset'
    refine ⟨next, ?_⟩
    rw [List.flatMap_cons, List.append_assoc, hstep, hrest]
    simp [StringState.push]

theorem scanString_text (text : String) (rest : List Char) (offset : Nat) : ∃ next,
    scanString .empty offset (text.toList.flatMap escapedChar ++ '"' :: rest) = .ok ⟨.ok text, ⟨rest, next⟩⟩ := by
  obtain ⟨next, hscan⟩ := scanString_chars text.toList rest .empty rfl rfl offset
  refine ⟨next, ?_⟩
  rw [hscan]
  simp [StringState.empty]

end WikiPress.Json
