import WikiPress.Proofs.AsRead
import WikiPress.Proofs.Literal

/-!
# Printed values

A printed value is read back as it is, if its numbers are whole numbers of 64 bits and a reader goes as deep as it is
nested. The scanner is followed through arrays and objects with whatever stands behind them.
-/

namespace WikiPress.Json

namespace Value

mutual

/-- Every number is a whole number of 64 bits. -/
def isWhole : Value → Bool
  | .number (.integer n) => Number.isInteger64 n
  | .number (.float _) => false
  | .array items => itemsWhole items
  | .object fields => fieldsWhole fields
  | _ => true

def itemsWhole : List Value → Bool
  | [] => true
  | item :: items => isWhole item && itemsWhole items

def fieldsWhole : List (String × Value) → Bool
  | [] => true
  | (_, value) :: fields => isWhole value && fieldsWhole fields

end

end Value

/-! ## What stands behind a value -/

/-- A layout that puts only blanks between the parts of a value. -/
structure Layout.IsBlank (layout : Layout) : Prop where
  lineBreak : ∀ depth, ∀ c ∈ layout.lineBreak depth, Cursor.isSpace c = true
  colon : ∃ blanks, layout.colon = ':' :: blanks ∧ ∀ c ∈ blanks, Cursor.isSpace c = true

theorem compact_isBlank : Layout.compact.IsBlank where
  lineBreak depth c hc := by cases hc
  colon := ⟨[], rfl, fun c hc => by cases hc⟩

theorem indented_isBlank : Layout.indented.IsBlank where
  lineBreak depth c hc := by
    obtain rfl | hc := List.mem_cons.1 hc
    · rfl
    · obtain rfl := List.eq_of_mem_replicate hc
      rfl
  colon := ⟨[' '], rfl, fun c hc => by
    obtain rfl := List.mem_singleton.1 hc
    rfl⟩

/-- The characters that stand behind a value inside another one. -/
def isDelimiter (c : Char) : Bool :=
  c = ',' || c = ']' || c = '\x7d'

theorem endsNumber_of_isSpace {c : Char} (h : Cursor.isSpace c = true) (rest : List Char) :
    EndsNumber (c :: rest) := by
  rintro _ ⟨rfl⟩
  simp only [Cursor.isSpace, Bool.or_eq_true, decide_eq_true_eq] at h
  obtain ((rfl | rfl) | rfl) | rfl := h <;> decide

theorem endsNumber_of_isDelimiter {c : Char} (h : isDelimiter c = true) (rest : List Char) :
    EndsNumber (c :: rest) := by
  rintro _ ⟨rfl⟩
  simp only [isDelimiter, Bool.or_eq_true, decide_eq_true_eq] at h
  obtain (rfl | rfl) | rfl := h <;> decide

theorem endsNumber_blanks {blanks rest : List Char} (hblanks : ∀ c ∈ blanks, Cursor.isSpace c = true)
    (hrest : EndsNumber rest) : EndsNumber (blanks ++ rest) := by
  cases blanks with
  | nil => exact hrest
  | cons c blanks => exact endsNumber_of_isSpace (hblanks c (List.mem_cons_self ..)) _

section
variable {layout : Layout} (hlayout : layout.IsBlank)
include hlayout

theorem endsNumber_items (depth depth' : Nat) (vs : List Value) (rest : List Char) :
    EndsNumber (Value.itemChars layout depth vs ++ (layout.lineBreak depth' ++ ']' :: rest)) := by
  cases vs with
  | nil =>
    rw [Value.itemChars, List.nil_append]
    exact endsNumber_blanks (hlayout.lineBreak depth') (endsNumber_of_isDelimiter (by decide) rest)
  | cons v vs =>
    rw [Value.itemChars]
    exact endsNumber_of_isDelimiter (by decide) _

theorem endsNumber_fields (depth depth' : Nat) (fields : List (String × Value)) (rest : List Char) :
    EndsNumber (Value.fieldChars layout depth fields ++ (layout.lineBreak depth' ++ '\x7d' :: rest)) := by
  cases fields with
  | nil =>
    rw [Value.fieldChars, List.nil_append]
    exact endsNumber_blanks (hlayout.lineBreak depth') (endsNumber_of_isDelimiter (by decide) rest)
  | cons field fields =>
    rw [Value.fieldChars]
    exact endsNumber_of_isDelimiter (by decide) _

end

/-! ## Where a value starts -/

theorem ne_of_isDigit {c : Char} (h : c = '-' ∨ Text.isDigit c = true) : Cursor.isSpace c = false ∧ c ≠ ']' := by
  constructor
  · cases hspace : Cursor.isSpace c with
    | false => rfl
    | true =>
      simp only [Cursor.isSpace, Bool.or_eq_true, decide_eq_true_eq] at hspace
      obtain ((rfl | rfl) | rfl) | rfl := hspace <;> exact absurd h (by decide)
  · rintro rfl
    exact absurd h (by decide)

/-- The first character of a printed value is no blank and does not close an array. -/
theorem chars_eq_cons (layout : Layout) (depth : Nat) {v : Value} (h : v.isWhole = true) :
    ∃ c cs, v.chars layout depth = c :: cs ∧ Cursor.isSpace c = false ∧ c ≠ ']' := by
  cases v with
  | null => exact ⟨_, _, rfl, by decide, by decide⟩
  | boolean b => cases b <;> exact ⟨_, _, rfl, by decide, by decide⟩
  | number n =>
    cases n with
    | float x => cases h
    | integer n =>
      obtain ⟨c, cs, hcs, hc⟩ := integerText_eq_cons n
      exact ⟨c, cs, by rw [Value.chars, Number.chars, hcs], ne_of_isDigit hc⟩
  | string s => exact ⟨_, _, rfl, by decide, by decide⟩
  | array items =>
    cases items with
    | nil => exact ⟨_, _, rfl, by decide, by decide⟩
    | cons item items => exact ⟨_, _, rfl, by decide, by decide⟩
  | object fields =>
    cases fields with
    | nil => exact ⟨_, _, rfl, by decide, by decide⟩
    | cons field fields => exact ⟨_, _, rfl, by decide, by decide⟩

/-! ## Scalars -/

section
variable {at' : Cursor} {rest : List Char} (fuel : Nat)

theorem scanValue_null (h : at'.skipSpace.rest = ['n', 'u', 'l', 'l'] ++ rest) :
    ∃ next, scanValue (fuel + 1) at' = ⟨.null next, .ok ⟨rest, next⟩⟩ := by
  have hrest : at'.skipSpace.rest = 'n' :: (['u', 'l', 'l'] ++ rest) := h
  refine ⟨at'.skipSpace.offset + 1 + 3, ?_⟩
  simp only [scanValue, hrest, Cursor.skip_one hrest, scanWord_append]
  rfl

theorem scanValue_boolean (b : Bool) (depth : Nat) (layout : Layout)
    (h : at'.skipSpace.rest = (Value.boolean b).chars layout depth ++ rest) :
    ∃ stop next, scanValue (fuel + 1) at' = ⟨.boolean b stop, .ok ⟨rest, next⟩⟩ := by
  cases b with
  | true =>
    have hrest : at'.skipSpace.rest = 't' :: (['r', 'u', 'e'] ++ rest) := h
    refine ⟨at'.skipSpace.offset + 1 + 3, at'.skipSpace.offset + 1 + 3, ?_⟩
    simp only [scanValue, hrest, Cursor.skip_one hrest, scanWord_append]
    rfl
  | false =>
    have hrest : at'.skipSpace.rest = 'f' :: (['a', 'l', 's', 'e'] ++ rest) := h
    refine ⟨at'.skipSpace.offset + 1 + 4, at'.skipSpace.offset + 1 + 4, ?_⟩
    simp only [scanValue, hrest, Cursor.skip_one hrest, scanWord_append]
    rfl

theorem scanValue_string (s : String) (h : at'.skipSpace.rest = stringChars s ++ rest) :
    ∃ stop next, scanValue (fuel + 1) at' = ⟨.string (.ok s) stop, .ok ⟨rest, next⟩⟩ := by
  have hrest : at'.skipSpace.rest = '"' :: (s.toList.flatMap escapedChar ++ '"' :: rest) := by
    rw [h, stringChars]
    simp
  obtain ⟨next, hscan⟩ := scanString_text s rest (at'.skipSpace.offset + 1)
  refine ⟨next, next, ?_⟩
  simp only [scanValue, hrest, hscan]
  rfl

theorem scanValue_number {n : Int} (hn : Number.isInteger64 n = true) (hends : EndsNumber rest)
    (h : at'.skipSpace.rest = integerText n ++ rest) :
    ∃ stop next, scanValue (fuel + 1) at' = ⟨.number (.ok (.integer n)) stop, .ok ⟨rest, next⟩⟩ := by
  obtain ⟨c, cs, hcs, hc⟩ := integerText_eq_cons n
  obtain ⟨exponentStart, next, hscan⟩ := scanNumber_integerText hends n at'.skipSpace.offset
  have hcursor : at'.skipSpace = ⟨integerText n ++ rest, at'.skipSpace.offset⟩ := by rw [← h]
  have hrest : at'.skipSpace.rest = c :: (cs ++ rest) := by rw [h, hcs, List.cons_append]
  have hstart : (c = '-' || Text.isDigit c) = true := by simpa using hc
  have hother : ∀ d, d ≠ '-' → Text.isDigit d = false → c ≠ d := by
    rintro d hd hdigit rfl
    simp [hd, hdigit] at hc
  refine ⟨next, next, ?_⟩
  unfold scanValue
  dsimp only
  rw [hrest]
  split
  · rename_i heq
    cases heq
  · rename_i heq
    exact absurd (List.cons.inj heq).1 (hother 'n' (by decide) (by decide))
  · rename_i heq
    exact absurd (List.cons.inj heq).1 (hother 't' (by decide) (by decide))
  · rename_i heq
    exact absurd (List.cons.inj heq).1 (hother 'f' (by decide) (by decide))
  · rename_i heq
    exact absurd (List.cons.inj heq).1 (hother '"' (by decide) (by decide))
  · rename_i heq
    exact absurd (List.cons.inj heq).1 (hother '[' (by decide) (by decide))
  · rename_i heq
    exact absurd (List.cons.inj heq).1 (hother '\x7b' (by decide) (by decide))
  · rename_i heq
    obtain ⟨rfl, -⟩ := List.cons.inj heq
    rw [if_pos hstart, hcursor, hscan]
    simp only [scalar, value_integerText hn]

end

/-! ## One step of the scanner -/

section
variable {at' : Cursor} {c : Char} {cs rest : List Char} (fuel : Nat)

theorem scanValue_array (h : at'.skipSpace.rest = '[' :: cs) : scanValue (fuel + 1) at' =
    ⟨.array at'.skipSpace.offset (scanElements fuel true ⟨cs, at'.skipSpace.offset + 1⟩).tree,
      (scanElements fuel true ⟨cs, at'.skipSpace.offset + 1⟩).next⟩ := by
  simp only [scanValue, h, Cursor.skip_one h]

theorem scanValue_object (h : at'.skipSpace.rest = '\x7b' :: cs) : scanValue (fuel + 1) at' =
    ⟨.object at'.skipSpace.offset (scanMembers fuel true ⟨cs, at'.skipSpace.offset + 1⟩).tree,
      (scanMembers fuel true ⟨cs, at'.skipSpace.offset + 1⟩).next⟩ := by
  simp only [scanValue, h, Cursor.skip_one h]

theorem scanElements_closed (first : Bool) (h : at'.skipSpace.rest = ']' :: rest) :
    scanElements (fuel + 1) first at' = ⟨.closed (at'.skipSpace.offset + 1), .ok ⟨rest, at'.skipSpace.offset + 1⟩⟩ := by
  simp only [scanElements, h, Cursor.skip_one h]

theorem scanMembers_closed (first : Bool) (h : at'.skipSpace.rest = '\x7d' :: rest) :
    scanMembers (fuel + 1) first at' = ⟨.closed (at'.skipSpace.offset + 1), .ok ⟨rest, at'.skipSpace.offset + 1⟩⟩ := by
  simp only [scanMembers, h, Cursor.skip_one h]

variable {fuel}

theorem scanElements_first {tree : Source} {next : Cursor} (hstart : at'.skipSpace.rest = c :: cs) (hc : c ≠ ']')
    (hitem : scanValue fuel at'.skipSpace = ⟨tree, .ok next⟩) : scanElements (fuel + 1) true at' =
      ⟨.more at'.skipSpace.offset tree (scanElements fuel false next).tree, (scanElements fuel false next).next⟩ := by
  generalize hothers : scanElements fuel false next = others
  unfold scanElements
  dsimp only
  rw [hstart]
  split
  · rename_i heq
    exact absurd (List.cons.inj heq).1 hc
  · rename_i heq
    cases heq
  · simp only [hitem, hothers]
  · contradiction
  · contradiction

theorem scanElements_next {tree : Source} {next : Cursor} (hcomma : at'.skipSpace.rest = ',' :: rest)
    (hstart : (Cursor.mk rest (at'.skipSpace.offset + 1)).skipSpace.rest = c :: cs) (hc : c ≠ ']')
    (hitem : scanValue fuel (Cursor.mk rest (at'.skipSpace.offset + 1)).skipSpace = ⟨tree, .ok next⟩) :
    scanElements (fuel + 1) false at' =
      ⟨.more (Cursor.mk rest (at'.skipSpace.offset + 1)).skipSpace.offset tree (scanElements fuel false next).tree,
        (scanElements fuel false next).next⟩ := by
  generalize hothers : scanElements fuel false next = others
  unfold scanElements
  simp only [hcomma, Cursor.skip_one hcomma, hitem, hothers]
  rw [hstart]
  split
  · rename_i heq
    exact absurd (List.cons.inj heq).1 hc
  · rename_i heq
    cases heq
  · rfl

theorem scanMembers_first {name : String} {key next : Cursor} {tree : Source} (hquote : at'.skipSpace.rest = '"' :: cs)
    (hname : scanString .empty (at'.skipSpace.offset + 1) cs = .ok ⟨.ok name, key⟩)
    (hcolon : key.skipSpace.rest = ':' :: rest)
    (hvalue : scanValue fuel ⟨rest, key.skipSpace.offset + 1⟩ = ⟨tree, .ok next⟩) :
    ∃ mark, scanMembers (fuel + 1) true at' =
      ⟨.more ⟨.ok name, mark⟩ tree (scanMembers fuel false next).tree, (scanMembers fuel false next).next⟩ := by
  refine ⟨key.skipSpace.offset, ?_⟩
  simp only [scanMembers, hquote, hname, hcolon, Cursor.skip_one hcolon, hvalue]
  rfl

theorem scanMembers_next {name : String} {key next : Cursor} {tree : Source} (hcomma : at'.skipSpace.rest = ',' :: rest)
    (hquote : (Cursor.mk rest (at'.skipSpace.offset + 1)).skipSpace.rest = '"' :: cs)
    (hname : scanString .empty ((Cursor.mk rest (at'.skipSpace.offset + 1)).skipSpace.offset + 1) cs =
      .ok ⟨.ok name, key⟩)
    {rest' : List Char} (hcolon : key.skipSpace.rest = ':' :: rest')
    (hvalue : scanValue fuel ⟨rest', key.skipSpace.offset + 1⟩ = ⟨tree, .ok next⟩) :
    ∃ mark, scanMembers (fuel + 1) false at' =
      ⟨.more ⟨.ok name, mark⟩ tree (scanMembers fuel false next).tree, (scanMembers fuel false next).next⟩ := by
  refine ⟨key.skipSpace.offset, ?_⟩
  simp only [scanMembers, hcomma, Cursor.skip_one hcomma, hquote, hname, hcolon, Cursor.skip_one hcolon, hvalue]
  rfl

end

/-! ## Reading back -/

theorem length_chars_pos (layout : Layout) (depth : Nat) {v : Value} (h : v.isWhole = true) :
    0 < (v.chars layout depth).length := by
  obtain ⟨c, cs, hcs, -⟩ := chars_eq_cons layout depth h
  rw [hcs]
  exact Nat.succ_pos _

/-- Scanned to its end in front of what may follow a value, and read back with as many levels as it is deep. -/
def ReadsBack (layout : Layout) (v : Value) : Prop :=
  ∀ (depth fuel : Nat) (at' : Cursor) (rest : List Char), EndsNumber rest →
    2 * (v.chars layout depth).length ≤ fuel + 2 → at'.skipSpace.rest = v.chars layout depth ++ rest →
    ∃ tree next, scanValue (fuel + 2) at' = ⟨tree, .ok ⟨rest, next⟩⟩ ∧
      ∀ levels, v.depth ≤ levels → value levels tree = .ok v

/-- The same of what is left of an array behind an item, its bracket included. -/
def ItemsReadBack (layout : Layout) (items : List Value) : Prop :=
  ∀ (depth depth' fuel offset : Nat) (rest : List Char), 2 * (Value.itemChars layout depth items).length ≤ fuel →
    ∃ tree next, scanElements (fuel + 1) false
        ⟨Value.itemChars layout depth items ++ (layout.lineBreak depth' ++ ']' :: rest), offset⟩ =
          ⟨tree, .ok ⟨rest, next⟩⟩ ∧
      ∀ levels, Value.itemsDepth items ≤ levels → tree.read (value levels) = .ok items

def FieldsReadBack (layout : Layout) (fields : List (String × Value)) : Prop :=
  ∀ (depth depth' fuel offset : Nat) (rest : List Char), 2 * (Value.fieldChars layout depth fields).length ≤ fuel →
    ∃ tree next, scanMembers (fuel + 1) false
        ⟨Value.fieldChars layout depth fields ++ (layout.lineBreak depth' ++ '\x7d' :: rest), offset⟩ =
          ⟨tree, .ok ⟨rest, next⟩⟩ ∧
      ∀ levels, Value.fieldsDepth fields ≤ levels → tree.read (value levels) = .ok fields

theorem scanValue_skipSpace (fuel : Nat) (at' : Cursor) :
    scanValue (fuel + 1) at'.skipSpace = scanValue (fuel + 1) at' := by
  simp only [scanValue, Cursor.skipSpace_skipSpace]

theorem arrayEmpty_readsBack (layout : Layout) : ReadsBack layout (.array []) := by
  intro depth fuel at' rest _ _ h
  have hopen : at'.skipSpace.rest = '[' :: ']' :: rest := h
  have hclosed : scanElements (fuel + 1) true ⟨']' :: rest, at'.skipSpace.offset + 1⟩ = _ :=
    scanElements_closed fuel true rfl
  refine ⟨_, _, (scanValue_array (fuel + 1) hopen).trans (by rw [hclosed]), fun levels hlevels => ?_⟩
  cases levels with
  | zero => cases hlevels
  | succ levels =>
    rw [value, Elements.read]
    rfl

theorem objectEmpty_readsBack (layout : Layout) : ReadsBack layout (.object []) := by
  intro depth fuel at' rest _ _ h
  have hopen : at'.skipSpace.rest = '\x7b' :: '\x7d' :: rest := h
  have hclosed : scanMembers (fuel + 1) true ⟨'\x7d' :: rest, at'.skipSpace.offset + 1⟩ = _ :=
    scanMembers_closed fuel true rfl
  refine ⟨_, _, (scanValue_object (fuel + 1) hopen).trans (by rw [hclosed]), fun levels hlevels => ?_⟩
  cases levels with
  | zero => cases hlevels
  | succ levels =>
    rw [value, Members.read]
    rfl

section
variable {layout : Layout} {v : Value} {at' : Cursor} {blanks rest : List Char} {depth fuel : Nat}
  (hv : ReadsBack layout v) (hblanks : ∀ c ∈ blanks, Cursor.isSpace c = true) (hrest : EndsNumber rest)
  (hfuel : 2 * (v.chars layout depth).length ≤ fuel + 2)
include hv hblanks hrest hfuel

theorem ReadsBack.item (hwhole : v.isWhole = true) (hat : at'.rest = blanks ++ (v.chars layout depth ++ rest)) :
    ∃ c cs tree next, at'.skipSpace.rest = c :: cs ∧ c ≠ ']' ∧
      scanValue (fuel + 2) at'.skipSpace = ⟨tree, .ok ⟨rest, next⟩⟩ ∧
      ∀ levels, v.depth ≤ levels → value levels tree = .ok v := by
  obtain ⟨c, cs, hcs, hspace, hc⟩ := chars_eq_cons layout depth hwhole
  have hstart : at'.skipSpace.rest = v.chars layout depth ++ rest := by
    refine Cursor.rest_skipSpace hat hblanks ?_
    rw [hcs]
    rintro _ ⟨rfl⟩
    exact hspace
  obtain ⟨tree, next, hscan, hread⟩ := hv depth fuel at' rest hrest hfuel hstart
  refine ⟨c, cs ++ rest, tree, next, ?_, hc, ?_, hread⟩
  · rw [hstart, hcs, List.cons_append]
  · rw [scanValue_skipSpace, hscan]

theorem ReadsBack.member (hlayout : layout.IsBlank) (hwhole : v.isWhole = true) {name : String}
    (hat : at'.rest = blanks ++ (stringChars name ++ (layout.colon ++ (v.chars layout depth ++ rest)))) :
    ∃ cs key cs' tree next, at'.skipSpace.rest = '"' :: cs ∧
      scanString .empty (at'.skipSpace.offset + 1) cs = .ok ⟨.ok name, key⟩ ∧ key.skipSpace.rest = ':' :: cs' ∧
      scanValue (fuel + 2) ⟨cs', key.skipSpace.offset + 1⟩ = ⟨tree, .ok ⟨rest, next⟩⟩ ∧
      ∀ levels, v.depth ≤ levels → value levels tree = .ok v := by
  obtain ⟨colonBlanks, hcolon, hcolonBlanks⟩ := hlayout.colon
  have hquote : at'.skipSpace.rest = '"' :: (name.toList.flatMap escapedChar ++
      '"' :: ':' :: (colonBlanks ++ (v.chars layout depth ++ rest))) := by
    refine Cursor.rest_skipSpace (hat.trans ?_) hblanks (by rintro _ ⟨rfl⟩; decide)
    simp [stringChars, hcolon]
  obtain ⟨mark, hname⟩ := scanString_text name (':' :: (colonBlanks ++ (v.chars layout depth ++ rest)))
    (at'.skipSpace.offset + 1)
  let key : Cursor := ⟨':' :: (colonBlanks ++ (v.chars layout depth ++ rest)), mark⟩
  have hkey : key.skipSpace.rest = key.rest :=
    Cursor.rest_skipSpace (List.nil_append _).symm (fun c hc => by cases hc) (by rintro _ ⟨rfl⟩; decide)
  obtain ⟨c, cs, tree, next, -, -, hscan, hread⟩ := hv.item hcolonBlanks hrest hfuel hwhole
    (rfl : (Cursor.mk (colonBlanks ++ (v.chars layout depth ++ rest)) (key.skipSpace.offset + 1)).rest = _)
  exact ⟨_, key, _, tree, next, hquote, hname, hkey, (scanValue_skipSpace ..).symm.trans hscan, hread⟩

end

section
variable {layout : Layout} (hlayout : layout.IsBlank)
include hlayout

section
variable {item : Value} {items : List Value} (hitem : ReadsBack layout item) (hwhole : item.isWhole = true)
  (hitems : ItemsReadBack layout items)
include hitem hwhole hitems

theorem array_readsBack : ReadsBack layout (.array (item :: items)) := by
  intro depth fuel at' rest _ hfuel h
  let tail := Value.itemChars layout (depth + 1) items ++ (layout.lineBreak depth ++ ']' :: rest)
  let start : Cursor :=
    ⟨layout.lineBreak (depth + 1) ++ (item.chars layout (depth + 1) ++ tail), at'.skipSpace.offset + 1⟩
  have hopen : at'.skipSpace.rest = '[' :: start.rest := by
    rw [h, Value.chars]
    simp [start, tail]
  have hlength := length_chars_pos layout (depth + 1) hwhole
  simp only [Value.chars, List.length_cons, List.length_append, List.length_nil] at hfuel
  obtain ⟨fuel, rfl⟩ : ∃ fuel', fuel = fuel' + 2 := ⟨fuel - 2, by omega⟩
  obtain ⟨c, cs, tree, next, hstart, hc, hscan, hread⟩ := hitem.item (hlayout.lineBreak (depth + 1))
    (endsNumber_items hlayout (depth + 1) depth items rest) (by omega : _ ≤ fuel + 2) hwhole (rfl : start.rest = _)
  obtain ⟨others, stop, hothers, hreadOthers⟩ := hitems (depth + 1) depth (fuel + 1) next rest (by omega)
  have helements := scanElements_first hstart hc hscan
  rw [hothers] at helements
  refine ⟨_, _, (scanValue_array (fuel + 3) hopen).trans (by rw [helements]), fun levels hlevels => ?_⟩
  rw [Value.depth, Value.itemsDepth] at hlevels
  cases levels with
  | zero => omega
  | succ levels =>
    rw [value, Elements.read, hread levels (by omega), hreadOthers levels (by omega)]
    rfl

theorem items_readBack : ItemsReadBack layout (item :: items) := by
  intro depth depth' fuel offset rest hfuel
  let tail := Value.itemChars layout depth items ++ (layout.lineBreak depth' ++ ']' :: rest)
  let start : Cursor := ⟨layout.lineBreak depth ++ (item.chars layout depth ++ tail), offset + 1⟩
  have hrest : Value.itemChars layout depth (item :: items) ++ (layout.lineBreak depth' ++ ']' :: rest) =
      ',' :: start.rest := by
    rw [Value.itemChars]
    simp [start, tail]
  have hcomma : (Cursor.mk (',' :: start.rest) offset).skipSpace = ⟨',' :: start.rest, offset⟩ := rfl
  have hlength := length_chars_pos layout depth hwhole
  simp only [Value.itemChars, List.length_cons, List.length_append] at hfuel
  obtain ⟨fuel, rfl⟩ : ∃ fuel', fuel = fuel' + 2 := ⟨fuel - 2, by omega⟩
  obtain ⟨c, cs, tree, next, hstart, hc, hscan, hread⟩ := hitem.item (hlayout.lineBreak depth)
    (endsNumber_items hlayout depth depth' items rest) (by omega : _ ≤ fuel + 2) hwhole (rfl : start.rest = _)
  obtain ⟨others, stop, hothers, hreadOthers⟩ := hitems depth depth' (fuel + 1) next rest (by omega)
  have helements := scanElements_next (congrArg Cursor.rest hcomma) hstart hc hscan
  rw [hothers] at helements
  rw [hrest]
  refine ⟨_, _, helements, fun levels hlevels => ?_⟩
  rw [Value.itemsDepth] at hlevels
  rw [Elements.read, hread levels (by omega), hreadOthers levels (by omega)]
  rfl

end

section
variable {name : String} {v : Value} {fields : List (String × Value)} (hv : ReadsBack layout v)
  (hwhole : v.isWhole = true) (hfields : FieldsReadBack layout fields)
include hv hwhole hfields

theorem object_readsBack (hsorted : Dictionary.IsSorted ((name, v) :: fields)) :
    ReadsBack layout (.object ((name, v) :: fields)) := by
  intro depth fuel at' rest _ hfuel h
  let tail := Value.fieldChars layout (depth + 1) fields ++ (layout.lineBreak depth ++ '\x7d' :: rest)
  let start : Cursor := ⟨layout.lineBreak (depth + 1) ++ (stringChars name ++ (layout.colon ++
    (v.chars layout (depth + 1) ++ tail))), at'.skipSpace.offset + 1⟩
  have hopen : at'.skipSpace.rest = '\x7b' :: start.rest := by
    rw [h, Value.chars]
    simp [start, tail]
  have hlength := length_chars_pos layout (depth + 1) hwhole
  simp only [Value.chars, List.length_cons, List.length_append, List.length_nil] at hfuel
  obtain ⟨fuel, rfl⟩ : ∃ fuel', fuel = fuel' + 2 := ⟨fuel - 2, by omega⟩
  obtain ⟨cs, key, cs', tree, next, hquote, hname, hcolon, hscan, hread⟩ := hv.member (hlayout.lineBreak (depth + 1))
    (endsNumber_fields hlayout (depth + 1) depth fields rest) (by omega : _ ≤ fuel + 2) hlayout hwhole
    (rfl : start.rest = _)
  obtain ⟨others, stop, hothers, hreadOthers⟩ := hfields (depth + 1) depth (fuel + 1) next rest (by omega)
  obtain ⟨mark, hmembers⟩ := scanMembers_first hquote hname hcolon hscan
  rw [hothers] at hmembers
  refine ⟨_, _, (scanValue_object (fuel + 3) hopen).trans (by rw [hmembers]), fun levels hlevels => ?_⟩
  rw [Value.depth, Value.fieldsDepth] at hlevels
  cases levels with
  | zero => omega
  | succ levels =>
    have hpairs : Members.read (value levels) (.more ⟨.ok name, mark⟩ tree others) = .ok ((name, v) :: fields) := by
      rw [Members.read, hread levels (by omega), hreadOthers levels (by omega)]
      rfl
    rw [value, hpairs, Except.map, Dictionary.ofPairs_of_isSorted hsorted]

theorem fields_readBack : FieldsReadBack layout ((name, v) :: fields) := by
  intro depth depth' fuel offset rest hfuel
  let tail := Value.fieldChars layout depth fields ++ (layout.lineBreak depth' ++ '\x7d' :: rest)
  let start : Cursor := ⟨layout.lineBreak depth ++ (stringChars name ++ (layout.colon ++
    (v.chars layout depth ++ tail))), offset + 1⟩
  have hrest : Value.fieldChars layout depth ((name, v) :: fields) ++ (layout.lineBreak depth' ++ '\x7d' :: rest) =
      ',' :: start.rest := by
    rw [Value.fieldChars]
    simp [start, tail]
  have hcomma : (Cursor.mk (',' :: start.rest) offset).skipSpace = ⟨',' :: start.rest, offset⟩ := rfl
  have hlength := length_chars_pos layout depth hwhole
  simp only [Value.fieldChars, List.length_cons, List.length_append] at hfuel
  obtain ⟨fuel, rfl⟩ : ∃ fuel', fuel = fuel' + 2 := ⟨fuel - 2, by omega⟩
  obtain ⟨cs, key, cs', tree, next, hquote, hname, hcolon, hscan, hread⟩ := hv.member (hlayout.lineBreak depth)
    (endsNumber_fields hlayout depth depth' fields rest) (by omega : _ ≤ fuel + 2) hlayout hwhole (rfl : start.rest = _)
  obtain ⟨others, stop, hothers, hreadOthers⟩ := hfields depth depth' (fuel + 1) next rest (by omega)
  obtain ⟨mark, hmembers⟩ := scanMembers_next (congrArg Cursor.rest hcomma) hquote hname hcolon hscan
  rw [hothers] at hmembers
  rw [hrest]
  refine ⟨_, _, hmembers, fun levels hlevels => ?_⟩
  rw [Value.fieldsDepth] at hlevels
  rw [Members.read, hread levels (by omega), hreadOthers levels (by omega)]
  rfl

end

mutual

/-- **Printed values.** Each is scanned to its end and read back. -/
theorem readsBack : ∀ v : Value, v.isWhole = true → v.isSorted = true → ReadsBack layout v
  | .null, _, _ => by
    intro depth fuel at' rest _ _ h
    obtain ⟨next, hscan⟩ := scanValue_null (fuel + 1) h
    exact ⟨_, _, hscan, fun levels _ => by rw [value]⟩
  | .boolean b, _, _ => by
    intro depth fuel at' rest _ _ h
    obtain ⟨stop, next, hscan⟩ := scanValue_boolean (fuel + 1) b depth layout h
    exact ⟨_, _, hscan, fun levels _ => by rw [value]⟩
  | .number (.integer n), hwhole, _ => by
    intro depth fuel at' rest hrest _ h
    obtain ⟨stop, next, hscan⟩ := scanValue_number (fuel + 1) hwhole hrest h
    exact ⟨_, _, hscan, fun levels _ => by rw [value]; rfl⟩
  | .string s, _, _ => by
    intro depth fuel at' rest _ _ h
    obtain ⟨stop, next, hscan⟩ := scanValue_string (fuel + 1) s h
    exact ⟨_, _, hscan, fun levels _ => by rw [value]; rfl⟩
  | .array [], _, _ => arrayEmpty_readsBack layout
  | .array (item :: items), hwhole, hsorted => by
    obtain ⟨hitem, hitems⟩ := Bool.and_eq_true_iff.1 hwhole
    obtain ⟨hitemSorted, hitemsSorted⟩ := Bool.and_eq_true_iff.1 hsorted
    exact array_readsBack hlayout (readsBack item hitem hitemSorted) hitem (itemsReadBack items hitems hitemsSorted)
  | .object [], _, _ => objectEmpty_readsBack layout
  | .object ((name, v) :: fields), hwhole, hsorted => by
    obtain ⟨hv, hfields⟩ := Bool.and_eq_true_iff.1 hwhole
    obtain ⟨hkeys, hsorted⟩ := Bool.and_eq_true_iff.1 hsorted
    obtain ⟨hvSorted, hfieldsSorted⟩ := Bool.and_eq_true_iff.1 hsorted
    exact object_readsBack hlayout (readsBack v hv hvSorted) hv (fieldsReadBack fields hfields hfieldsSorted)
      (of_decide_eq_true hkeys)

theorem itemsReadBack : ∀ items : List Value, Value.itemsWhole items = true → Value.itemsSorted items = true →
    ItemsReadBack layout items
  | [], _, _ => by
    intro depth depth' fuel offset rest _
    have hclose : (Cursor.mk (layout.lineBreak depth' ++ ']' :: rest) offset).skipSpace.rest = ']' :: rest :=
      Cursor.rest_skipSpace rfl (hlayout.lineBreak depth') (by rintro _ ⟨rfl⟩; decide)
    exact ⟨_, _, scanElements_closed fuel false hclose, fun levels _ => rfl⟩
  | item :: items, hwhole, hsorted => by
    obtain ⟨hitem, hitems⟩ := Bool.and_eq_true_iff.1 hwhole
    obtain ⟨hitemSorted, hitemsSorted⟩ := Bool.and_eq_true_iff.1 hsorted
    exact items_readBack hlayout (readsBack item hitem hitemSorted) hitem (itemsReadBack items hitems hitemsSorted)

theorem fieldsReadBack : ∀ fields : List (String × Value), Value.fieldsWhole fields = true →
    Value.fieldsSorted fields = true → FieldsReadBack layout fields
  | [], _, _ => by
    intro depth depth' fuel offset rest _
    have hclose : (Cursor.mk (layout.lineBreak depth' ++ '\x7d' :: rest) offset).skipSpace.rest = '\x7d' :: rest :=
      Cursor.rest_skipSpace rfl (hlayout.lineBreak depth') (by rintro _ ⟨rfl⟩; decide)
    exact ⟨_, _, scanMembers_closed fuel false hclose, fun levels _ => rfl⟩
  | (name, v) :: fields, hwhole, hsorted => by
    obtain ⟨hv, hfields⟩ := Bool.and_eq_true_iff.1 hwhole
    obtain ⟨hvSorted, hfieldsSorted⟩ := Bool.and_eq_true_iff.1 hsorted
    exact fields_readBack hlayout (readsBack v hv hvSorted) hv (fieldsReadBack fields hfields hfieldsSorted)

end

end

/-! ## Whole texts -/

/-- The last character of a printed value is no blank. -/
theorem chars_eq_append (layout : Layout) (depth : Nat) {v : Value} (h : v.isWhole = true) :
    ∃ cs c, v.chars layout depth = cs ++ [c] ∧ Cursor.isSpace c = false := by
  cases v with
  | null => exact ⟨['n', 'u', 'l'], 'l', rfl, by decide⟩
  | boolean b =>
    cases b
    · exact ⟨['f', 'a', 'l', 's'], 'e', rfl, by decide⟩
    · exact ⟨['t', 'r', 'u'], 'e', rfl, by decide⟩
  | number n =>
    cases n with
    | float x => cases h
    | integer n =>
      have hlast := isDigit_of_mem_integerText (List.getLast_mem (integerText_ne_nil n))
      exact ⟨_, _, (List.dropLast_concat_getLast (integerText_ne_nil n)).symm, (ne_of_isDigit hlast).1⟩
  | string s => exact ⟨'"' :: s.toList.flatMap escapedChar, '"', rfl, by decide⟩
  | array items =>
    cases items with
    | nil => exact ⟨['['], ']', rfl, by decide⟩
    | cons item items => exact ⟨_, ']', by rw [Value.chars], by decide⟩
  | object fields =>
    cases fields with
    | nil => exact ⟨['\x7b'], '\x7d', rfl, by decide⟩
    | cons field fields => exact ⟨_, '\x7d', by rw [Value.chars], by decide⟩

section
variable {tree : Value} (hwhole : tree.isWhole = true) (hsorted : tree.isSorted = true) (hdepth : tree.depth < 128)
include hwhole hsorted hdepth

/-- In any layout, and in front of blanks. -/
theorem ofText_chars {layout : Layout} (hlayout : layout.IsBlank) (blanks : List Char)
    (hblanks : ∀ c ∈ blanks, Cursor.isSpace c = true) :
    Value.ofText (.ofList (tree.chars layout 0 ++ blanks)) = .ok tree := by
  let start : Cursor := ⟨tree.chars layout 0 ++ blanks, 0⟩
  have hstart : Cursor.ofString (.ofList (tree.chars layout 0 ++ blanks)) = start := by
    simp [Cursor.ofString, start]
  have hrest : start.skipSpace.rest = tree.chars layout 0 ++ blanks := by
    obtain ⟨c, cs, hcs, hc, -⟩ := chars_eq_cons layout 0 hwhole
    refine Cursor.rest_skipSpace (List.nil_append _).symm (fun c hc => by cases hc) ?_
    rw [hcs]
    rintro _ ⟨rfl⟩
    exact hc
  have hends : EndsNumber (blanks ++ []) := endsNumber_blanks hblanks fun c hc => by cases hc
  rw [List.append_nil] at hends
  obtain ⟨source, next, hscan, hread⟩ := readsBack hlayout tree hwhole hsorted 0 (2 * start.rest.length) start blanks
    hends (by simp [start]; omega) hrest
  have hafter : (Cursor.mk blanks next).skipSpace.rest = [] :=
    Cursor.rest_skipSpace (List.append_nil _).symm hblanks (fun c hc => by cases hc)
  have hdocument : Document.ofString (.ofList (tree.chars layout 0 ++ blanks)) = ⟨source, .ok ()⟩ := by
    simp only [Document.ofString, hstart, hscan, hafter, List.isEmpty_nil, if_pos]
  have hvalue : value deepest source = .ok tree := hread deepest (Nat.le_of_lt_succ hdepth)
  simp only [Value.ofText, readText, readFault, hdocument, hvalue]
  rfl

theorem ofText_compact : Value.ofText tree.compact = .ok tree := by
  have := ofText_chars hwhole hsorted hdepth compact_isBlank [] fun c hc => by cases hc
  rwa [List.append_nil] at this

theorem ofText_indented : Value.ofText tree.pretty = .ok tree :=
  ofText_chars hwhole hsorted hdepth indented_isBlank ['\n'] (indented_isBlank.lineBreak 0)

/-- **Printed and read back.** The text is the value and one line break, and either is read as what was printed. What
the reader gives has its keys in order (`sorted_of_value`). -/
theorem ofText_pretty : ∃ text : String, tree.pretty = text ++ "\n" ∧ text.toList.getLast? ≠ some '\n' ∧
    Value.ofText text = .ok tree ∧ Value.ofText tree.pretty = .ok tree := by
  refine ⟨.ofList (tree.chars .indented 0), ?_, ?_, ?_, ?_⟩
  · rw [Value.pretty, String.ofList_append]
  · obtain ⟨cs, c, hcs, hc⟩ := chars_eq_append .indented 0 hwhole
    rw [String.toList_ofList, hcs, List.getLast?_concat]
    rintro ⟨rfl⟩
    exact absurd hc (by decide)
  · have := ofText_chars hwhole hsorted hdepth indented_isBlank [] fun c hc => by cases hc
    rwa [List.append_nil] at this
  · exact ofText_indented hwhole hsorted hdepth

end

/-- A quote, a line break and a control character in texts, both ends of the whole numbers, and empty containers. -/
def nested : Value :=
  .object [("attrs", .object [("\"k\\", .string "a\"\n\x01é")]),
    ("content", .array [.number (.integer (-9223372036854775808)), .number (.integer 18446744073709551615), .array [],
      .array [.null, .boolean true], .object []])]

theorem ofText_pretty_nested : (nested.isWhole = true ∧ nested.isSorted = true ∧ nested.depth < 128) ∧
    Value.ofText nested.pretty = .ok nested := by
  have hwhole : nested.isWhole = true := by decide
  have hsorted : nested.isSorted = true := by decide
  have hdepth : nested.depth < 128 := by decide
  obtain ⟨text, -, -, -, hread⟩ := ofText_pretty hwhole hsorted hdepth
  exact ⟨⟨hwhole, hsorted, hdepth⟩, hread⟩

end WikiPress.Json
