import Mathlib.Control.Monad.Basic
import WikiPress.Macro
import WikiPress.Proofs.Bars
import WikiPress.Proofs.Fragment

/-!
# Tables of issues read back

In the attributes of a table of issues a value ends at the first double quote that no backslash stands right before.
Quotes in a value are escaped and backslashes are not, so the attributes are read back exactly when no value ends with
a backslash.
-/

namespace WikiPress.Macro

open Render (escapedAfter)

/-! ## Reading attributes -/

/-- Cuts a text at the first double quote that no backslash stands right before. `escaped` says whether a backslash
comes before the text. -/
def cutQuote (escaped : Bool) : List Char → Option (List Char × List Char)
  | [] => none
  | c :: cs =>
    if c = '"' ∧ escaped = false then some ([], cs)
    else (cutQuote (c = '\\') cs).map fun (before, after) => (c :: before, after)

def unescapeQuotes : List Char → List Char
  | '\\' :: '"' :: cs => '"' :: unescapeQuotes cs
  | c :: cs => c :: unescapeQuotes cs
  | [] => []

def readQuoted : List Char → Option (String × List Char)
  | '"' :: cs => (cutQuote false cs).map fun (raw, rest) => (.ofList (unescapeQuotes raw), rest)
  | _ => none

/-- A value, and the name before it if there is one. -/
structure Attribute where
  name : Option String := none
  value : String
  deriving DecidableEq, Repr

def readAttribute (cs : List Char) : Option (Attribute × List Char) :=
  match cs with
  | '"' :: _ => (readQuoted cs).map fun (value, rest) => ({ value }, rest)
  | _ =>
    (Text.cutAt '=' cs).bind fun (name, rest) =>
      (readQuoted rest).map fun (value, rest) => ({ name := some (.ofList name), value }, rest)

theorem length_of_cutQuote {escaped : Bool} {cs before after : List Char}
    (h : cutQuote escaped cs = some (before, after)) : after.length < cs.length := by
  induction cs generalizing escaped before with
  | nil => cases h
  | cons c cs ih =>
    unfold cutQuote at h
    by_cases hc : c = '"' ∧ escaped = false
    · rw [if_pos hc] at h
      cases h
      exact Nat.lt_succ_self _
    · rw [if_neg hc, Option.map_eq_some_iff] at h
      obtain ⟨⟨inner, rest⟩, hcut, hparts⟩ := h
      cases hparts
      exact Nat.lt_succ_of_lt (ih hcut)

theorem length_of_readQuoted {cs rest : List Char} {value : String} (h : readQuoted cs = some (value, rest)) :
    rest.length < cs.length := by
  unfold readQuoted at h
  split at h
  · obtain ⟨⟨raw, behind⟩, hcut, hparts⟩ := Option.map_eq_some_iff.1 h
    cases hparts
    exact Nat.lt_succ_of_lt (length_of_cutQuote hcut)
  · cases h

theorem length_of_readAttribute {cs rest : List Char} {first : Attribute}
    (h : readAttribute cs = some (first, rest)) : rest.length < cs.length := by
  unfold readAttribute at h
  split at h
  · obtain ⟨⟨value, behind⟩, hread, hparts⟩ := Option.map_eq_some_iff.1 h
    cases hparts
    exact length_of_readQuoted hread
  · obtain ⟨⟨name, after⟩, hcut, hread⟩ := Option.bind_eq_some_iff.1 h
    obtain ⟨⟨value, behind⟩, hread, hparts⟩ := Option.map_eq_some_iff.1 hread
    cases hparts
    have hafter : after.length < cs.length := by
      rw [(Text.of_cutAt hcut).1]
      simp
      omega
    exact Nat.lt_trans (length_of_readQuoted hread) hafter

/-- Attributes up to the closing bracket at the end of a line, with a comma and a blank between two of them. -/
def readAttributes (cs : List Char) : Option (List Attribute) :=
  match _h : readAttribute cs with
  | some (first, [']', '\n']) => some [first]
  | some (first, ',' :: ' ' :: rest) => (readAttributes rest).map (first :: ·)
  | _ => none
termination_by cs.length
decreasing_by
  have := length_of_readAttribute _h
  simp at this
  omega

/-- The attributes of a table of issues that is all of a text. -/
def readTable (s : String) : Option (List Attribute) :=
  (Text.afterStart? "\njiraIssuesTable::[".toList s.toList).bind readAttributes

/-! ## A value in quotes -/

def escapeQuotes (cs : List Char) : List Char :=
  Text.replaceChar '"' ['\\', '"'] cs

theorem toList_quotedValue (s : String) : (quotedValue s).toList = '"' :: escapeQuotes s.toList ++ ['"'] := by
  simp [quotedValue, escapeQuotes]

theorem escapeQuotes_quote (cs : List Char) : escapeQuotes ('"' :: cs) = '\\' :: '"' :: escapeQuotes cs := rfl

theorem escapeQuotes_cons {c : Char} (h : c ≠ '"') (cs : List Char) :
    escapeQuotes (c :: cs) = c :: escapeQuotes cs := by
  simp [escapeQuotes, Text.replaceChar, h]

theorem escapeQuotes_append (cs ds : List Char) : escapeQuotes (cs ++ ds) = escapeQuotes cs ++ escapeQuotes ds :=
  List.flatMap_append ..

theorem escapeQuotes_ne_quote {ds : List Char} (h : ∀ es, ds ≠ '"' :: es) (cs es : List Char) :
    escapeQuotes cs ++ ds ≠ '"' :: es := by
  cases cs with
  | nil => exact h es
  | cons c cs =>
    by_cases hc : c = '"'
    · rw [hc, escapeQuotes_quote]
      exact fun he => absurd (List.cons.inj he).1 (by decide)
    · rw [escapeQuotes_cons hc]
      exact fun he => hc (List.cons.inj he).1

theorem unescapeQuotes_cons {c : Char} {cs : List Char} (h : ∀ ds, cs ≠ '"' :: ds) :
    unescapeQuotes (c :: cs) = c :: unescapeQuotes cs := by
  rw [unescapeQuotes]
  exact fun ds _ hds => h ds hds

theorem unescapeQuotes_append {ds : List Char} (h : ∀ es, ds ≠ '"' :: es) (cs : List Char) :
    unescapeQuotes (escapeQuotes cs ++ ds) = cs ++ unescapeQuotes ds := by
  induction cs with
  | nil => rfl
  | cons c cs ih =>
    by_cases hc : c = '"'
    · rw [hc, escapeQuotes_quote]
      exact congrArg ('"' :: ·) ih
    · rw [escapeQuotes_cons hc, List.cons_append, unescapeQuotes_cons (escapeQuotes_ne_quote h cs), ih]
      rfl

theorem cutQuote_append (escaped : Bool) (cs rest : List Char) :
    cutQuote escaped (escapeQuotes cs ++ rest) =
      (cutQuote (escapedAfter escaped cs) rest).map fun (before, after) => (escapeQuotes cs ++ before, after) := by
  induction cs generalizing escaped with
  | nil => exact Option.map_id'.symm
  | cons c cs ih =>
    by_cases hc : c = '"'
    · subst hc
      rw [escapeQuotes_quote]
      simp [cutQuote, escapedAfter, ih, Function.comp_def]
    · rw [escapeQuotes_cons hc]
      simp [cutQuote, escapedAfter, hc, ih, Function.comp_def]

def EndsInBackslash (s : String) : Prop :=
  s.toList.getLast? = some '\\'

instance (s : String) : Decidable (EndsInBackslash s) :=
  inferInstanceAs (Decidable (_ = _))

theorem endsInBackslash_iff (s : String) : EndsInBackslash s ↔ escapedAfter false s.toList = true := by
  rw [EndsInBackslash]
  obtain hs | ⟨before, c, hs⟩ := List.eq_nil_or_concat s.toList
  · rw [hs]
    exact ⟨nofun, nofun⟩
  · rw [hs, List.concat_eq_append, Render.escapedAfter_append]
    simp [escapedAfter]

theorem readQuoted_quotedValue {s : String} (h : ¬EndsInBackslash s) (rest : List Char) :
    readQuoted ((quotedValue s).toList ++ rest) = some (s, rest) := by
  rw [endsInBackslash_iff, Bool.not_eq_true] at h
  have hcut : cutQuote false ((escapeQuotes s.toList ++ ['"']) ++ rest) = some (escapeQuotes s.toList, rest) := by
    rw [List.append_assoc, cutQuote_append, h]
    simp [cutQuote]
  have hback := unescapeQuotes_append (nofun : ∀ es, [] ≠ '"' :: es) s.toList
  rw [List.append_nil] at hback
  rw [toList_quotedValue, List.cons_append, List.cons_append, readQuoted, hcut]
  simp [hback, unescapeQuotes]

/-- The quote that should end the value is taken for a part of it. -/
theorem readQuoted_ne {s value : String} (h : EndsInBackslash s) {rest behind : List Char}
    (hread : readQuoted ((quotedValue s).toList ++ rest) = some (value, behind)) : value ≠ s := by
  obtain ⟨before, hs⟩ := List.getLast?_eq_some_iff.1 h
  rw [toList_quotedValue, List.cons_append, List.cons_append, readQuoted, List.append_assoc, cutQuote_append,
    (endsInBackslash_iff s).1 h, Option.map_map, Option.map_eq_some_iff] at hread
  obtain ⟨⟨inner, after⟩, hcut, hparts⟩ := hread
  -- the cut went past the closing quote, so it is the first character of what was cut off behind the value
  have hinner : ∃ more, inner = '"' :: more := by
    rw [List.singleton_append, cutQuote, if_neg (by decide), Option.map_eq_some_iff] at hcut
    obtain ⟨⟨more, _⟩, _, he⟩ := hcut
    exact ⟨more, (Prod.mk.inj he).1.symm⟩
  obtain ⟨more, rfl⟩ := hinner
  have hvalue : value.toList = before ++ '"' :: unescapeQuotes more := by
    rw [← (Prod.mk.inj hparts).1, hs, escapeQuotes_append]
    have hstart : ∀ es, '\\' :: '"' :: more ≠ '"' :: es := fun es he => absurd (List.cons.inj he).1 (by decide)
    have := unescapeQuotes_append hstart before
    simpa [escapeQuotes, Text.replaceChar, unescapeQuotes] using this
  intro he
  rw [he, hs] at hvalue
  simp at hvalue

/-! ## Lists of attributes -/

def Attribute.markup (a : Attribute) : String :=
  match a.name with
  | none => quotedValue a.value
  | some name => name ++ "=" ++ quotedValue a.value

/-- A name is read up to the first equals sign, and an attribute that begins with a quote has none. -/
def Attribute.Proper (a : Attribute) : Prop :=
  ∀ name ∈ a.name, '=' ∉ name.toList ∧ name.toList.head? ≠ some '"'

instance (a : Attribute) : Decidable a.Proper :=
  inferInstanceAs (Decidable (∀ name ∈ a.name, _))

def attributesMarkup (attributes : List Attribute) : String :=
  String.intercalate ", " (attributes.map Attribute.markup) ++ "]\n"

theorem readAttribute_markup {a : Attribute} (h : a.Proper) (rest : List Char) :
    readAttribute (a.markup.toList ++ rest) =
      (readQuoted ((quotedValue a.value).toList ++ rest)).map fun (value, rest) => ({ a with value }, rest) := by
  obtain ⟨name, value⟩ := a
  cases name with
  | none =>
    show readAttribute ((quotedValue value).toList ++ rest) = _
    rw [toList_quotedValue]
    rfl
  | some name =>
    obtain ⟨hsign, hquote⟩ := h name rfl
    have hcs : (Attribute.markup ⟨some name, value⟩).toList ++ rest =
        name.toList ++ '=' :: ((quotedValue value).toList ++ rest) := by
      simp [Attribute.markup]
    have hcut := Text.cutAt_append hsign ((quotedValue value).toList ++ rest)
    rw [hcs, readAttribute, hcut]
    · simp
    · intro cs he
      cases hname : name.toList with
      | nil =>
        rw [hname] at he
        exact absurd (List.cons.inj he).1 (by decide)
      | cons c tail =>
        rw [hname] at he hquote
        exact hquote (congrArg some (List.cons.inj he).1)

theorem readAttribute_of_not_endsInBackslash {a : Attribute} (h : a.Proper) (hend : ¬EndsInBackslash a.value)
    (rest : List Char) : readAttribute (a.markup.toList ++ rest) = some (a, rest) := by
  rw [readAttribute_markup h, readQuoted_quotedValue hend]
  rfl

theorem readAttribute_ne {a read : Attribute} (h : a.Proper) (hend : EndsInBackslash a.value)
    {rest behind : List Char} (hread : readAttribute (a.markup.toList ++ rest) = some (read, behind)) : read ≠ a := by
  rw [readAttribute_markup h, Option.map_eq_some_iff] at hread
  obtain ⟨⟨value, _⟩, hread, he⟩ := hread
  intro heq
  refine readQuoted_ne hend hread ?_
  rw [← heq, ← (Prod.mk.inj he).1]

theorem readAttribute_of_readAttributes {cs : List Char} {first : Attribute} {attributes : List Attribute}
    (h : readAttributes cs = some (first :: attributes)) : ∃ rest, readAttribute cs = some (first, rest) := by
  unfold readAttributes at h
  split at h
  · cases h
    exact ⟨_, ‹_›⟩
  · obtain ⟨others, _, he⟩ := Option.map_eq_some_iff.1 h
    cases he
    exact ⟨_, ‹_›⟩
  · cases h

theorem readAttributes_last {cs : List Char} {a : Attribute} (h : readAttribute cs = some (a, [']', '\n'])) :
    readAttributes cs = some [a] := by
  rw [readAttributes]
  split <;> simp_all

theorem readAttributes_comma {cs rest : List Char} {a : Attribute}
    (h : readAttribute cs = some (a, ',' :: ' ' :: rest)) :
    readAttributes cs = (readAttributes rest).map (a :: ·) := by
  rw [readAttributes]
  split <;> simp_all

def behindAttribute : List Attribute → List Char
  | [] => [']', '\n']
  | next :: attributes => ',' :: ' ' :: (attributesMarkup (next :: attributes)).toList

theorem toList_attributesMarkup (first : Attribute) (attributes : List Attribute) :
    (attributesMarkup (first :: attributes)).toList = first.markup.toList ++ behindAttribute attributes := by
  cases attributes with
  | nil => simp [attributesMarkup, behindAttribute]
  | cons next attributes => simp [attributesMarkup, behindAttribute, String.intercalate_cons_cons]

theorem not_endsInBackslash_first {first : Attribute} {attributes others : List Attribute} (h : first.Proper)
    (hread : readAttributes (attributesMarkup (first :: attributes)).toList = some (first :: others)) :
    ¬EndsInBackslash first.value := by
  intro hend
  rw [toList_attributesMarkup] at hread
  obtain ⟨rest, hread⟩ := readAttribute_of_readAttributes hread
  exact readAttribute_ne h hend hread rfl

/-- **Attributes read back.** A list of attributes is read back exactly when no value ends with a backslash. -/
theorem readAttributes_attributesMarkup (attributes : List Attribute) : ∀ {first : Attribute},
    (∀ a ∈ first :: attributes, a.Proper) →
    (readAttributes (attributesMarkup (first :: attributes)).toList = some (first :: attributes) ↔
      ∀ a ∈ first :: attributes, ¬EndsInBackslash a.value) := by
  induction attributes with
  | nil =>
    intro first h
    have hfirst := h first (List.mem_cons_self ..)
    rw [List.forall_mem_singleton]
    refine ⟨not_endsInBackslash_first hfirst, fun hend => ?_⟩
    rw [toList_attributesMarkup]
    exact readAttributes_last (readAttribute_of_not_endsInBackslash hfirst hend _)
  | cons next attributes ih =>
    intro first h
    obtain ⟨hfirst, hrest⟩ := List.forall_mem_cons.1 h
    by_cases hend : EndsInBackslash first.value
    · refine iff_of_false ?_ fun hall => hall first (List.mem_cons_self ..) hend
      exact fun hread => not_endsInBackslash_first hfirst hread hend
    · have hread := readAttribute_of_not_endsInBackslash hfirst hend (behindAttribute (next :: attributes))
      rw [toList_attributesMarkup, readAttributes_comma hread, List.forall_mem_cons, ← ih hrest]
      simp [hend]

/-! ## What a table shows -/

deriving instance DecidableEq for ColumnField, Column, SearchLevel, Search

/-- The id of a column that is available and has one. -/
def Column.shownId? : Column → Option String
  | ⟨true, some ⟨some id⟩⟩ => some id
  | _ => none

theorem SearchLevel.fieldIds_eq (level : SearchLevel) :
    level.fieldIds = String.intercalate "," (level.columns.filterMap Column.shownId?) := by
  have hshown : ∀ column : Column,
      (if column.available then column.field.bind ColumnField.id else none) = column.shownId? := by
    rintro ⟨_ | _, _ | ⟨_ | id⟩⟩ <;> rfl
  rw [fieldIds, List.filterMap_filter, funext hshown]

/-- The values of a level as they are meant: the query, the ids of the columns with commas between them, and a title
that says something. -/
def SearchLevel.shown (level : SearchLevel) : List Attribute :=
  { value := level.jql } ::
    { name := some "fields", value := String.intercalate "," (level.columns.filterMap Column.shownId?) } ::
    ((level.title.filter (· != "")).map fun title => { name := some "title", value := title }).toList

theorem SearchLevel.proper_shown (level : SearchLevel) : ∀ a ∈ level.shown, a.Proper := by
  intro a ha name hname
  rw [shown, List.mem_cons, List.mem_cons, Option.mem_toList,
    Option.map_eq_some_iff] at ha
  obtain rfl | rfl | ⟨title, _, rfl⟩ := ha
  · cases hname
  · cases hname
    decide
  · cases hname
    decide

theorem SearchLevel.attributes_eq (level : SearchLevel) : level.attributes = level.shown.map Attribute.markup := by
  rw [SearchLevel.attributes, SearchLevel.shown, level.fieldIds_eq]
  cases level.title.filter (· != "") <;> simp [Attribute.markup]

theorem SearchLevel.markup_eq (level : SearchLevel) :
    level.markup = "\njiraIssuesTable::[" ++ attributesMarkup level.shown := by
  show "\njiraIssuesTable::[" ++ String.intercalate ", " level.attributes ++ "]\n" = _
  rw [level.attributes_eq, String.append_assoc, attributesMarkup]

theorem readTable_markup (level : SearchLevel) :
    readTable level.markup = readAttributes (attributesMarkup level.shown).toList := by
  have hstart (start rest : List Char) : Text.afterStart? start (start ++ rest) = some rest :=
    Text.afterStart?_eq_some_iff.2 rfl
  rw [readTable, level.markup_eq, String.toList_append, hstart, Option.bind_some]

/-- **Tables of issues read back.** The macro shows the table of the first level of its search, and its values are
read back from there exactly when none of them ends with a backslash. -/
theorem issueTable_readBack (level : SearchLevel) :
    (readTable level.markup = some level.shown ↔ ∀ a ∈ level.shown, ¬EndsInBackslash a.value) ∧
      ∀ (node : Node) (source : String) (deeper : List SearchLevel), parameter node "macroParams" = .ok source →
        Json.readText (Search.reader Json.deepest) source = .ok ⟨level :: deeper⟩ →
        render node .issueTable = .ok { fragments := [level.markup] } := by
  refine ⟨?_, fun node source deeper hsource hread => ?_⟩
  · rw [readTable_markup]
    exact readAttributes_attributesMarkup _ level.proper_shown
  · unfold render
    rw [hsource]
    simp only [bind, Except.bind, hread]
    rfl

/-- A query with a backslash in it and a quote at its end, and three columns, of which one is not shown. -/
theorem issueTable_readBack_quotes :
    let source := "\x7b\"levels\":[\x7b\"jql\":\"a = \\\"b\\\\c\\\"\",\"title\":\"T\",\"fieldsPosition\":" ++
      "[\x7b\"available\":true,\"value\":\x7b\"id\":\"key\"\x7d\x7d,\x7b\"value\":\x7b\"id\":\"x\"\x7d\x7d," ++
      "\x7b\"available\":true,\"value\":\x7b\"id\":\"due\"\x7d\x7d]\x7d]\x7d"
    let column (available : Bool) (id : String) : Column := { available, field := some { id := some id } }
    let level : SearchLevel :=
      { jql := "a = \"b\\c\"", title := some "T", columns := [column true "key", column false "x", column true "due"] }
    let macroParams : Json.Value := .object [("macroParams", .object [("value", .string source)])]
    let node : Node :=
      { type := "extension",
        attrs :=
          [("extensionKey", .string "jira-jql-snapshot"), ("parameters", .object [("macroParams", macroParams)])] }
    let markup := "\njiraIssuesTable::[\"a = \\\"b\\c\\\"\", fields=\"key,due\", title=\"T\"]\n"
    let shown : List Attribute :=
      [{ value := "a = \"b\\c\"" }, { name := some "fields", value := "key,due" },
        { name := some "title", value := "T" }]
    render node .issueTable = .ok { fragments := [markup] } ∧ level.shown = shown ∧ readTable markup = some shown := by
  intro source column level macroParams node markup shown
  have hread : Json.readText (Search.reader Json.deepest) source = .ok ⟨[level]⟩ := by decide +kernel
  have hmarkup : level.markup = markup := by decide +kernel
  have hshown : level.shown = shown := by decide +kernel
  obtain ⟨hback, hrender⟩ := issueTable_readBack level
  rw [hmarkup] at hback hrender
  rw [hshown] at hback
  exact ⟨hrender node source [] rfl hread, hshown, hback.2 (by decide)⟩

end WikiPress.Macro
