import WikiPress.Json.Reading
import WikiPress.Proofs.Literal
import WikiPress.Proofs.OneLine
import WikiPress.Proofs.Steps

/-!
# Complaints in one line

Whatever a text is, what a reader complains of is told in one line: strings are quoted with their line ends escaped, and
the names in a complaint are those of the reader.
-/

namespace WikiPress.Json

open Text (OneLine)

/-! ## Numbers -/

theorem digitChar_ne_newline : ∀ n < 16, '\n' ≠ Nat.digitChar n := by decide

theorem newline_not_mem_toDigits (base : Nat) (hb : 1 < base) (hle : base ≤ 16) (n : Nat) :
    '\n' ∉ Nat.toDigits base n := by
  induction n using Nat.strongRecOn with
  | _ n ih =>
    by_cases h : n < base
    · rw [Nat.toDigits_of_lt_base h]
      simp [digitChar_ne_newline n (by omega)]
    · have hn : 0 < n := by omega
      have hdigit : n % base < base := Nat.mod_lt n (by omega)
      rw [Nat.toDigits_of_base_le hb (Nat.not_lt.1 h)]
      simp [ih _ (Nat.div_lt_self hn hb), digitChar_ne_newline _ (Nat.lt_of_lt_of_le hdigit hle)]

theorem oneLine_repr (n : Nat) : OneLine n.repr := by
  rw [OneLine, Nat.toList_repr]
  exact newline_not_mem_toDigits 10 (by decide) (by decide) n

theorem newline_not_mem_integerText (n : Int) : '\n' ∉ integerText n := by
  intro h
  obtain h | h := isDigit_of_mem_integerText h <;> exact absurd h (by decide)

theorem newline_not_mem_decimal {x : Decimal} (h : '\n' ∉ x.digits) : '\n' ∉ x.text numberLayout := by
  have htake (n : Nat) : '\n' ∉ x.digits.take n := fun hm => h (List.mem_of_mem_take hm)
  have hdrop (n : Nat) : '\n' ∉ x.digits.drop n := fun hm => h (List.mem_of_mem_drop hm)
  have htail : '\n' ∉ x.digits.tail := fun hm => h (List.mem_of_mem_tail hm)
  have hzeros (n : Nat) : '\n' ∉ Decimal.zeros n := fun hm => absurd (List.eq_of_mem_replicate hm) (by decide)
  have hexponent := newline_not_mem_toDigits 10 (by decide) (by decide) x.exponent.natAbs
  unfold Decimal.text
  split
  · unfold Decimal.positionalText
    simp only
    split
    · simp [h, hzeros]
    · split <;> simp [htake, hdrop, hzeros, numberLayout]
  · unfold Decimal.exponentText
    simp only
    split <;> split <;> simp [htake, htail, hexponent]

theorem newline_not_mem_binary64 (x : Binary64) : '\n' ∉ x.text numberLayout := by
  cases x with
  | finite negative m e =>
    have hdigits : '\n' ∉ (Binary64.shortest m e).digits := by
      unfold Binary64.shortest
      simp only
      split
      · decide
      · rename_i c g _
        intro hm
        refine newline_not_mem_toDigits 10 (by decide) (by decide) c ?_
        rw [Binary64.dropZerosEnd, List.mem_reverse] at hm
        exact List.mem_reverse.1 ((List.dropWhile_sublist _).subset hm)
    have htext := newline_not_mem_decimal hdigits
    have hwhole : '\n' ∉ '0' :: numberLayout.wholeTail := by decide
    rw [Binary64.text]
    split <;> split <;> simp [htext, hwhole]
  | infinite negative => cases negative <;> decide
  | nan => decide

/-! ## Wording -/

theorem newline_not_mem_quoteChar (c : Char) : '\n' ∉ Text.quoteChar c := by
  unfold Text.quoteChar
  split
  case h_7 hc _ _ _ =>
    by_cases hp : Text.isPrintable c = true
    · rw [if_pos hp]
      simpa using Ne.symm hc
    · rw [if_neg hp]
      have := newline_not_mem_toDigits 16 (by decide) (by decide) c.toNat
      simpa [Text.hexDigits] using this
  all_goals decide

theorem oneLine_quoted (s : String) : OneLine (Text.quoted s) := by
  rw [Text.quoted, Text.oneLine_ofList]
  simpa using fun c _ => newline_not_mem_quoteChar c

theorem oneLine_backquoted {s : String} (h : OneLine s) : OneLine (backquoted s) := by
  rw [backquoted, Text.oneLine_ofList]
  simpa [OneLine] using h

theorem oneLine_found (found : Found) : OneLine found.describe := by
  cases found with
  | null | array | object => decide
  | boolean b => cases b <;> decide
  | number n =>
    cases n with
    | integer n => exact .append (by decide) (oneLine_backquoted (Text.oneLine_ofList.2 (newline_not_mem_integerText n)))
    | float x => exact .append (by decide) (oneLine_backquoted (Text.oneLine_ofList.2 (newline_not_mem_binary64 x)))
  | string s => exact .append (by decide) (oneLine_quoted s)

theorem oneLine_wrongType (found : Found) {expected : Expected} (h : OneLine expected.describe) :
    OneLine (Cause.wrongType found expected).message := by
  show OneLine ("invalid type: " ++ found.describe ++ ", expected " ++ expected.describe)
  simp +decide [oneLine_found, h]

/-- Does the message name nothing that was found or wanted? -/
def Cause.isFixed : Cause → Bool
  | .wrongType _ _ | .missingField _ | .duplicateField _ | .tooShort _ _ _ | .tooLong _ => false
  | _ => true

theorem oneLine_of_isFixed {cause : Cause} (h : cause.isFixed = true) : OneLine cause.message := by
  cases cause with
  | wrongType | missingField | duplicateField | tooShort | tooLong => cases h
  | _ => decide

theorem oneLine_missingField {name : String} (h : OneLine name) : OneLine (Cause.missingField name).message :=
  OneLine.append (a := "missing field ") (by decide) (oneLine_backquoted h)

theorem oneLine_duplicateField {name : String} (h : OneLine name) : OneLine (Cause.duplicateField name).message :=
  OneLine.append (a := "duplicate field ") (by decide) (oneLine_backquoted h)

theorem oneLine_tooShort (length fields : Nat) {name : String} (h : OneLine name) :
    OneLine (Cause.tooShort length name fields).message := by
  have hplural : OneLine (plural fields) := by
    unfold plural
    split <;> decide
  show OneLine ("invalid length " ++ toString length ++ ", expected struct " ++ name ++ " with " ++
    toString fields ++ " element" ++ plural fields)
  simp +decide [oneLine_repr, h, hplural]

/-! ## Trees -/

def Fault.OneLine (fault : Fault) : Prop :=
  Text.OneLine fault.cause.message

theorem Fault.OneLine.of {cause : Cause} (h : Text.OneLine cause.message) (offset : Nat) :
    Fault.OneLine ⟨cause, offset⟩ := h

theorem Fault.OneLine.fixed {cause : Cause} (h : cause.isFixed = true) (offset : Nat) :
    Fault.OneLine ⟨cause, offset⟩ :=
  oneLine_of_isFixed h

structure Flaw.OneLine (flaw : Flaw) : Prop where
  strict : flaw.strict.OneLine
  lax : flaw.lax.OneLine

theorem Flaw.OneLine.fixed {cause : Cause} (h : cause.isFixed = true) (offset : Nat) :
    (Flaw.of cause offset).OneLine :=
  ⟨.fixed h offset, .fixed h offset⟩

abbrev Tells {α : Type} (result : Except Fault α) : Prop :=
  Answers Fault.OneLine (fun _ => True) result

mutual

/-- All that is wrong in a tree is told in one line. -/
def Source.OneLine : Source → Prop
  | .broken flaw => flaw.OneLine
  | .null _ | .boolean _ _ => True
  | .number value _ => Tells value
  | .string value _ => Tells value
  | .array _ elements => elements.OneLine
  | .object _ members => members.OneLine

def Elements.OneLine : Elements → Prop
  | .closed _ => True
  | .flawed flaw surplus => flaw.OneLine ∧ surplus.OneLine
  | .more _ item rest => item.OneLine ∧ rest.OneLine

def Members.OneLine : Members → Prop
  | .closed _ => True
  | .flawed flaw => flaw.OneLine
  | .more key value rest => Tells key.name ∧ value.OneLine ∧ rest.OneLine

end

/-! ## Scalars of a text -/

theorem scanWord_oneLine (word : List Char) (at' : Cursor) :
    Answers Flaw.OneLine (fun _ => True) (scanWord word at') := by
  fun_induction scanWord word at' with
  | case1 => exact trivial
  | case2 => exact .fixed rfl _
  | case3 _ _ _ _ _ ih => exact ih
  | case4 => exact .fixed rfl _

theorem digitMissing_oneLine (at' : Cursor) : (digitMissing at').OneLine := by
  unfold digitMissing
  split
  · exact ⟨.fixed rfl _, .fixed rfl _⟩
  · exact .fixed rfl _

theorem scanWhole_oneLine (at' : Cursor) : Answers Flaw.OneLine (fun _ => True) (scanWhole at') := by
  unfold scanWhole
  split
  · split
    · exact .fixed rfl _
    · trivial
  · simp only
    split
    · exact digitMissing_oneLine _
    · trivial

theorem scanFraction_oneLine (at' : Cursor) : Answers Flaw.OneLine (fun _ => True) (scanFraction at') := by
  unfold scanFraction
  split
  · simp only
    split
    · exact digitMissing_oneLine _
    · trivial
  · trivial

theorem scanExponent_oneLine (at' : Cursor) : Answers Flaw.OneLine (fun _ => True) (scanExponent at') := by
  unfold scanExponent
  split
  case h_3 => trivial
  all_goals
    simp only
    split
    · exact digitMissing_oneLine _
    · trivial

theorem scanNumber_oneLine (at' : Cursor) : Answers Flaw.OneLine (fun _ => True) (scanNumber at') := by
  refine (scanWhole_oneLine _).bind fun whole _ => ?_
  refine (scanFraction_oneLine _).bind fun fraction _ => ?_
  exact (scanExponent_oneLine _).bind fun exponent _ => trivial

theorem toBinary64_oneLine (literal : NumberLiteral) (exponentStart stop : Nat) :
    Tells (literal.toBinary64 exponentStart stop) := by
  unfold NumberLiteral.toBinary64
  simp only
  split
  case' h_2 =>
    split
    case h_2 =>
      split
      · exact .fixed rfl _
      · trivial
  -- scaled, with an exponent or without one
  all_goals
    split
    · trivial
    · exact .fixed rfl _

theorem value_oneLine (literal : NumberLiteral) (exponentStart stop : Nat) :
    Tells (literal.value exponentStart stop) := by
  have hbinary : Tells ((literal.toBinary64 exponentStart stop).map Number.float) :=
    (toBinary64_oneLine literal exponentStart stop).map fun _ _ => trivial
  unfold NumberLiteral.value
  simp only
  generalize (if literal.negative = true then _ else _ : Int) = n
  split
  · trivial
  · exact hbinary

/-! ## Strings of a text -/

def StringState.OneLine (state : StringState) : Prop :=
  ∀ fault ∈ state.fault, fault.OneLine

theorem StringState.empty_oneLine : StringState.empty.OneLine := by
  intro fault hf
  cases hf

namespace StringState.OneLine

variable {state : StringState} (h : state.OneLine)
include h

theorem blame {cause : Cause} (hc : cause.isFixed = true) (offset : Nat) : (state.blame cause offset).OneLine := by
  intro fault hf
  cases hfault : state.fault with
  | some earlier =>
    rw [StringState.blame, hfault] at hf
    exact h fault (hfault ▸ hf)
  | none =>
    rw [StringState.blame, hfault] at hf
    cases hf
    exact .fixed hc offset

theorem settle (offset : Nat) : (state.settle offset).OneLine := by
  unfold StringState.settle
  split
  · exact h
  · exact h.blame rfl offset

theorem pushUnit (u offset : Nat) : (state.pushUnit u offset).OneLine := by
  have lone : (state.blame .loneSurrogate offset).OneLine := h.blame rfl offset
  unfold StringState.pushUnit
  simp only
  split
  · split
    · exact h
    · exact lone
  · split
    · exact lone
    · split
      · exact h
      · exact h

theorem stop {strict lax : Fault} (hs : strict.OneLine) (hl : lax.OneLine) : (state.stop strict lax).OneLine := by
  refine ⟨?_, hl⟩
  unfold StringState.stop
  cases hfault : state.fault with
  | none => exact hs
  | some fault => exact h fault hfault

theorem value : Tells state.value := by
  unfold StringState.value
  split
  · rename_i fault hfault
    exact h fault hfault
  · trivial

end StringState.OneLine

theorem hexFlaw_oneLine {state : StringState} (h : state.OneLine) (rest : List Char) (offset : Nat) :
    (hexFlaw state rest offset).OneLine := by
  unfold hexFlaw
  simp only
  split
  · exact h.stop (.fixed rfl _) (.fixed rfl _)
  · exact h.stop (.fixed rfl _) (.fixed rfl _)

/-- Whether a string is closed or not, the first fault in it is told in one line. -/
theorem scanString_oneLine {state : StringState} (h : state.OneLine) (offset : Nat) (cs : List Char) :
    Answers Flaw.OneLine (fun scan => Tells scan.value) (scanString state offset cs) := by
  fun_induction scanString state offset cs with
  | case1 => exact h.stop (.fixed rfl _) (.fixed rfl _)
  | case2 => exact (h.settle _).value
  | case3 _ _ _ _ _ _ _ _ _ ih => exact ih (h.pushUnit _ _)
  | case4 => exact hexFlaw_oneLine h _ _
  | case5 => exact hexFlaw_oneLine h _ _
  | case6 _ _ _ _ _ _ _ _ _ ih => exact ih (h.settle _)
  | case7 => exact (h.settle _).stop (.fixed rfl _) (.fixed rfl _)
  | case8 => exact h.stop (.fixed rfl _) (.fixed rfl _)
  | case9 => exact (h.settle _).stop (.fixed rfl _) (.fixed rfl _)
  | case10 _ _ _ _ _ _ _ _ _ _ _ ih => exact ih (h.settle _)

/-! ## Values of a text -/

structure Scan.OneLine {α : Type} (p : α → Prop) (scan : Scan α) : Prop where
  tree : p scan.tree
  next : Answers Flaw.OneLine (fun _ => True) scan.next

theorem scalar_oneLine {α : Type} {result : Except Flaw α} {q : α → Prop} {tree : α → Source} {next : α → Cursor}
    (h : Answers Flaw.OneLine q result) (ht : ∀ a, q a → (tree a).OneLine) :
    (scalar result tree next).OneLine Source.OneLine := by
  cases result with
  | error flaw => exact ⟨h, h⟩
  | ok a => exact ⟨ht a h, trivial⟩

theorem separatorMissing_oneLine (at' : Cursor) {atEnd otherwise : Cause} (h : atEnd.isFixed = true)
    (h' : otherwise.isFixed = true) : (separatorMissing at' atEnd otherwise).OneLine := by
  unfold separatorMissing
  split
  · exact .fixed h _
  · exact .fixed h' _

theorem exhausted_oneLine (at' : Cursor) : (exhausted at').OneLine :=
  .fixed rfl _

/-- Whatever is scanned next, if there is a next place, and the flaw that stopped the scan if there is none. -/
theorem Scan.OneLine.follow {α β : Type} {p : α → Prop} {q : β → Prop} {scan : Scan α} {stop : Flaw → Scan β}
    {go : Cursor → Scan β} (h : scan.OneLine p) (hstop : ∀ flaw : Flaw, flaw.OneLine → (stop flaw).OneLine q)
    (hgo : ∀ next, (go next).OneLine q) : Scan.OneLine q
      (match scan.next with
      | .error flaw => stop flaw
      | .ok next => go next) := by
  split
  · rename_i flaw hflaw
    exact hstop flaw (h.next.of_error hflaw)
  · exact hgo _

section
variable {fuel : Nat} (values : ∀ at', (scanValue fuel at').OneLine Source.OneLine)
  (elements : ∀ first at', (scanElements fuel first at').OneLine Elements.OneLine)
  (members : ∀ first at', (scanMembers fuel first at').OneLine Members.OneLine)

include elements members in
theorem scanValue_oneLine (at' : Cursor) : (scanValue (fuel + 1) at').OneLine Source.OneLine := by
  unfold scanValue
  simp only
  split
  · exact scalar_oneLine (q := fun _ => True) (.fixed rfl _) fun _ _ => trivial
  · exact scalar_oneLine (scanWord_oneLine _ _) fun _ _ => trivial
  · exact scalar_oneLine (scanWord_oneLine _ _) fun _ _ => trivial
  · exact scalar_oneLine (scanWord_oneLine _ _) fun _ _ => trivial
  · exact scalar_oneLine (scanString_oneLine StringState.empty_oneLine _ _) fun _ hs => hs
  · exact ⟨(elements _ _).tree, (elements _ _).next⟩
  · exact ⟨(members _ _).tree, (members _ _).next⟩
  · split
    · exact scalar_oneLine (scanNumber_oneLine _) fun n _ => value_oneLine _ _ _
    · exact ⟨.fixed rfl _, .fixed rfl _⟩

include values elements in
theorem scanElements_oneLine (first : Bool) (at' : Cursor) :
    (scanElements (fuel + 1) first at').OneLine Elements.OneLine := by
  unfold scanElements
  simp only
  split
  case h_1 => exact ⟨trivial, trivial⟩
  case h_2 => exact ⟨⟨.fixed rfl _, .fixed rfl _⟩, .fixed rfl _⟩
  case h_5 => exact ⟨⟨.fixed rfl _, .fixed rfl _⟩, .fixed rfl _⟩
  case' h_4 =>
    split
    case h_1 => exact ⟨⟨⟨.fixed rfl _, .fixed rfl _⟩, .fixed rfl _⟩, ⟨.fixed rfl _, .fixed rfl _⟩⟩
    case h_2 => exact ⟨⟨.fixed rfl _, .fixed rfl _⟩, .fixed rfl _⟩
  -- an element, the first one or one behind a comma
  all_goals
    exact (values _).follow (fun flaw h => ⟨⟨(values _).tree, h, h.strict⟩, h⟩)
      fun next => ⟨⟨(values _).tree, (elements false next).tree⟩, (elements false next).next⟩

include values members in
theorem scanMembers_oneLine (first : Bool) (at' : Cursor) :
    (scanMembers (fuel + 1) first at').OneLine Members.OneLine := by
  have stopped {flaw : Flaw} (h : flaw.OneLine) : Scan.OneLine Members.OneLine ⟨.flawed flaw, .error flaw⟩ := ⟨h, h⟩
  unfold scanMembers
  simp only
  split
  case h_1 => exact ⟨trivial, trivial⟩
  case h_2 | h_4 | h_6 => exact stopped (.fixed rfl _)
  case' h_5 =>
    split
    case h_2 | h_3 => exact stopped ⟨.fixed rfl _, .fixed rfl _⟩
    case h_4 => exact stopped (.fixed rfl _)
  -- a member, the first one or one behind a comma
  all_goals
    split
    · rename_i flaw hflaw
      exact stopped ((scanString_oneLine StringState.empty_oneLine _ _).of_error hflaw)
    · rename_i name hscan
      have hname := (scanString_oneLine StringState.empty_oneLine _ _).of_ok hscan
      split
      · exact (values _).follow (fun flaw h => ⟨⟨hname, (values _).tree, h⟩, h⟩)
          fun next => ⟨⟨hname, (values _).tree, (members false next).tree⟩, (members false next).next⟩
      · have hmissing : (separatorMissing name.next.skipSpace .endOfObject .expectedColon).OneLine :=
          separatorMissing_oneLine _ rfl rfl
        exact ⟨⟨hname, hmissing, hmissing⟩, hmissing⟩

end

/-- **Flaws in one line.** A text may stop being JSON anywhere, and what is said about it takes one line. -/
theorem scan_oneLine (fuel : Nat) : (∀ at', (scanValue fuel at').OneLine Source.OneLine) ∧
    (∀ first at', (scanElements fuel first at').OneLine Elements.OneLine) ∧
    ∀ first at', (scanMembers fuel first at').OneLine Members.OneLine := by
  induction fuel with
  | zero =>
    refine ⟨fun at' => ?_, fun _ at' => ?_, fun _ at' => ?_⟩
    · exact ⟨exhausted_oneLine at', exhausted_oneLine at'⟩
    · exact ⟨⟨exhausted_oneLine at', (exhausted_oneLine at').strict⟩, exhausted_oneLine at'⟩
    · exact ⟨exhausted_oneLine at', exhausted_oneLine at'⟩
  | succ fuel ih =>
    obtain ⟨values, elements, members⟩ := ih
    exact ⟨scanValue_oneLine elements members, scanElements_oneLine values elements,
      scanMembers_oneLine values members⟩

theorem document_oneLine (s : String) :
    (Document.ofString s).tree.OneLine ∧ Tells (Document.ofString s).ending := by
  have hscan := (scan_oneLine (2 * (Cursor.ofString s).rest.length + 2)).1 (Cursor.ofString s)
  refine ⟨hscan.tree, ?_⟩
  unfold Document.ofString
  simp only
  split
  · rename_i flaw hflaw
    exact (hscan.next.of_error hflaw).strict
  · split
    · trivial
    · exact .fixed rfl _

/-! ## Readers -/

/-- A reader that complains in one line, if the tree does. -/
def ReadsInLine {α : Type} (reader : Reader α) : Prop :=
  ∀ source : Source, source.OneLine → Tells (reader source)

theorem refusal_oneLine {expected : Expected} (he : OneLine expected.describe) {source : Source}
    (h : source.OneLine) : (source.refusal expected).OneLine := by
  unfold Source.refusal
  split
  case h_1 => exact h.strict
  case h_5 | h_7 => exact h
  all_goals exact .of (oneLine_wrongType _ he) _

theorem tooDeep_oneLine (start : Nat) : (tooDeep start).OneLine :=
  .fixed rfl _

mutual

theorem pass_oneLine : ∀ {source : Source}, source.OneLine → Tells source.pass
  | .broken _, h => h.lax
  | .null _, _ | .boolean _ _, _ | .number _ _, _ | .string _ _, _ => trivial
  | .array _ _, h => passElements_oneLine h
  | .object _ _, h => passMembers_oneLine h

theorem passElements_oneLine : ∀ {elements : Elements}, elements.OneLine → Tells elements.pass
  | .closed _, _ => trivial
  | .flawed _ _, h => h.1.lax
  | .more _ _ _, h => (pass_oneLine h.1).bind fun _ _ => passElements_oneLine h.2

theorem passMembers_oneLine : ∀ {members : Members}, members.OneLine → Tells members.pass
  | .closed _, _ => trivial
  | .flawed _, h => h.lax
  | .more _ _ _, h => (pass_oneLine h.2.1).bind fun _ _ => passMembers_oneLine h.2.2

end

section
variable {α σ : Type}

theorem text_readsInLine : ReadsInLine text := by
  intro source h
  unfold text
  split
  · exact h
  · exact refusal_oneLine (by decide) h

theorem flag_readsInLine : ReadsInLine flag := by
  intro source h
  unfold flag
  split
  · trivial
  · exact refusal_oneLine (by decide) h

theorem optional_readsInLine {reader : Reader α} (hr : ReadsInLine reader) : ReadsInLine (optional reader) := by
  intro source h
  unfold optional
  split
  · trivial
  · exact (hr _ h).map fun _ _ => trivial

theorem readElements_oneLine {reader : Reader α} (hr : ReadsInLine reader) : ∀ {elements : Elements},
    elements.OneLine → Tells (elements.read reader)
  | .closed _, _ => trivial
  | .flawed _ _, h => h.1.strict
  | .more _ _ _, h => (hr _ h.1).bind fun _ _ => (readElements_oneLine hr h.2).bind fun _ _ => trivial

theorem list_readsInLine {reader : Nat → Reader α} (hr : ∀ levels, ReadsInLine (reader levels)) (levels : Nat) :
    ReadsInLine (list reader levels) := by
  intro source h
  unfold list
  split
  · split
    · exact tooDeep_oneLine _
    · exact readElements_oneLine (hr _) h
  · exact refusal_oneLine (by decide) h

structure Field.ReadsInLine (f : Field σ) : Prop where
  name : OneLine f.name
  read : ∀ levels state, Json.ReadsInLine (f.read levels state)

theorem Field.ReadsInLine.of {name : String} {reader : Nat → Reader α} {set : α → σ → σ} (hn : OneLine name)
    (hr : ∀ levels, Json.ReadsInLine (reader levels)) : (Field.of name reader set).ReadsInLine :=
  ⟨hn, fun levels _ source h => (hr levels source h).map fun _ _ => trivial⟩

section
variable {fields : List (Field σ)} (hf : ∀ f ∈ fields, f.ReadsInLine)
include hf

theorem readRecord_members_oneLine (levels : Nat) : ∀ {members : Members}, members.OneLine →
    ∀ (seen : List String) (state : σ), Tells (members.readRecord fields levels seen state)
  | .closed _, _, _, _ => by
    unfold Members.readRecord
    split
    · rename_i f hfound
      exact .of (oneLine_missingField (hf f (List.mem_of_find?_eq_some hfound)).name) _
    · trivial
  | .flawed _, h, _, _ => h.strict
  | .more _ _ _, h, seen, state => by
    unfold Members.readRecord
    refine h.1.bind fun name _ => ?_
    split
    · exact (pass_oneLine h.2.1).bind fun _ _ => readRecord_members_oneLine levels h.2.2 _ _
    · rename_i f hfound
      have hfield := hf f (List.mem_of_find?_eq_some hfound)
      have hname : f.name = name := eq_of_beq (List.find?_some (p := fun f : Field σ => f.name == name) hfound)
      split
      · exact .of (oneLine_duplicateField (hname ▸ hfield.name)) _
      · exact (hfield.read levels state _ h.2.1).bind fun _ _ => readRecord_members_oneLine levels h.2.2 _ _

end

theorem readRecord_elements_oneLine {name : String} (hn : OneLine name) (total levels : Nat) :
    ∀ {fields : List (Field σ)}, (∀ f ∈ fields, f.ReadsInLine) → ∀ {elements : Elements}, elements.OneLine →
    ∀ state : σ, Tells (Elements.readRecord name total levels state fields elements)
  | [], _, .closed _, _, _ => trivial
  | [], _, .flawed _ _, h, _ => h.2
  | [], _, .more _ _ _, _, _ => .fixed rfl _
  | _ :: _, _, .closed _, _, _ => by
    unfold Elements.readRecord
    split
    · trivial
    · exact .of (oneLine_tooShort _ _ hn) _
  | _ :: _, _, .flawed _ _, h, _ => h.1.strict
  | f :: fields, hf, .more _ _ _, h, state =>
    ((hf f (List.mem_cons_self ..)).read levels state _ h.1).bind fun _ _ =>
      readRecord_elements_oneLine hn total levels (fun g hg => hf g (List.mem_cons_of_mem _ hg)) h.2 _

theorem record_readsInLine {name : String} {fields : List (Field σ)} (hn : OneLine name)
    (hf : ∀ f ∈ fields, f.ReadsInLine) (empty : σ) (levels : Nat) : ReadsInLine (record name fields empty levels) := by
  intro source h
  have hrecord : OneLine (Expected.record name).describe := OneLine.append (a := "struct ") (by decide) hn
  unfold record
  split
  · split
    · exact tooDeep_oneLine _
    · exact readRecord_members_oneLine hf _ h _ _
  · split
    · exact tooDeep_oneLine _
    · exact readRecord_elements_oneLine hn _ _ hf h _
  · exact refusal_oneLine hrecord h

theorem Fault.OneLine.messageIn {fault : Fault} (h : fault.OneLine) (text : String) :
    Text.OneLine (fault.messageIn text) := by
  unfold Fault.messageIn
  generalize placeOf fault.offset text.toList = place
  have hmessage : Text.OneLine fault.cause.message := h
  simp +decide [oneLine_repr, hmessage]

/-- **Complaints in one line.** A reader whose own names take one line complains of every text in one line. -/
theorem readText_oneLine {reader : Reader α} (hr : ReadsInLine reader) (s : String) :
    Answers Text.OneLine (fun _ => True) (readText reader s) := by
  obtain ⟨htree, hending⟩ := document_oneLine s
  have hfault : Tells (readFault reader s) :=
    (hr _ htree).bind fun _ _ => hending.bind fun _ _ => trivial
  unfold readText
  cases hread : readFault reader s with
  | ok a => trivial
  | error fault => exact (hfault.of_error hread).messageIn s

end

end WikiPress.Json
