import WikiPress.Proofs.Grammar
import WikiPress.Proofs.RecordText

/-!
# Nodes in a text

A text is read as a node in two ways: member by member as the text goes, or as a value first, and the node from the
value. Where the text is a value at all, the ways differ only for nodes and marks that have a field twice: the first
refuses them, and the second takes the last.
-/

namespace WikiPress

open Json (Value Fields Source Reader FieldsRead)
open Json.Value (Supplies Lists)

namespace Json

/-! ## Fields -/

/-- What is read of a field that may be left out. -/
inductive Takes {α : Type} (default : α) (reader : Reader α) : Option Source → α → Prop
  | absent : Takes default reader none default
  | present {source : Source} {a : α} (h : reader source = .ok a) : Takes default reader (some source) a

theorem Field.step_of {σ α : Type} {name : String} {reader : Nat → Reader α} {set : α → σ → σ} {levels : Nat}
    {found : Option Source} {s t : σ} (default : α) (hs : set default s = s) :
    (Field.of name reader set).Step levels found s t ↔ ∃ a, Takes default (reader levels) found a ∧ t = set a s := by
  cases found with
  | none =>
    constructor
    · intro h
      exact ⟨default, .absent, h.trans hs.symm⟩
    · intro h
      obtain ⟨a, ha, h⟩ := h
      cases ha
      exact h.trans hs
  | some source =>
    simp only [Field.Step, Field.of, map_eq_ok]
    constructor
    · intro h
      obtain ⟨a, ha, h⟩ := h
      exact ⟨a, .present ha, h.symm⟩
    · intro h
      obtain ⟨a, ha, h⟩ := h
      cases ha with
      | present ha => exact ⟨a, ha, h.symm⟩

theorem optional_eq_orElse {α : Type} (reader : Reader α) :
    optional reader = orElse none fun source => (reader source).map some := by
  funext source
  cases source <;> rfl

section
variable {levels : Nat} {source : Source} {v : Value} (hv : value levels source = .ok v)
include hv

theorem text_eq_ok {s : String} : text source = .ok s ↔ v = .string s := by
  cases readAs_of_value hv with
  | string => simp [text]
  | null | boolean | number | array | object => exact iff_of_false nofun nofun

theorem optionalText_eq_ok {a : Option String} :
    (text source).map some = .ok a ↔ ∃ s, v = .string s ∧ a = some s := by
  simp only [map_eq_ok, text_eq_ok hv, eq_comm (a := a)]

theorem dictionary_eq_ok {entries : Fields} : dictionary value levels source = .ok entries ↔ v = .object entries := by
  cases readAs_of_value hv with
  | object h => simp [dictionary, pairs, h, Except.map]
  | null | boolean | number | string | array => exact iff_of_false nofun nofun

end

theorem exists_levels {levels : Nat} {source : Source} {v : Value} {names : List String} {given : Fields}
    (hv : value levels source = .ok v) (form : v.recordFields? names = some given) : ∃ inner, levels = inner + 1 := by
  cases readAs_of_value hv with
  | null | boolean | number | string => cases form
  | array | object => exact ⟨_, rfl⟩

section
variable {α : Type} {levels : Nat} {reads : Value → α → Prop} {ok : Source → Prop}

theorem read_eq_ok {reader : Reader α}
    (h : ∀ source v, value levels source = .ok v → ∀ a, reader source = .ok a ↔ reads v a ∧ ok source) :
    ∀ {elements : Elements} {items : List Value}, elements.read (value levels) = .ok items →
      ∀ as, elements.read reader = .ok as ↔ items.Forall₂ reads as ∧ ∀ item ∈ elements.items, ok item
  | .closed _, items, hitems, as => by
    obtain rfl : [] = items := Except.ok.inj hitems
    rw [List.forall₂_nil_left_iff]
    constructor
    · intro h
      exact ⟨(Except.ok.inj h).symm, nofun⟩
    · intro h
      obtain ⟨h, _⟩ := h
      exact congrArg Except.ok h.symm
  | .flawed _ _, items, hitems, as => by
    rw [Elements.read] at hitems
    cases hitems
  | .more _ item rest, items, hitems, as => by
    obtain ⟨v, others, hv, hothers, rfl⟩ := readElements_more.1 hitems
    rw [readElements_more, Elements.items, List.forall₂_cons_left_iff, List.forall_mem_cons]
    simp only [h item v hv, read_eq_ok h hothers]
    constructor
    · intro h
      obtain ⟨a, as, ⟨ha, hok⟩, ⟨has, hoks⟩, h⟩ := h
      exact ⟨⟨a, as, ha, has, h.symm⟩, hok, hoks⟩
    · intro h
      obtain ⟨⟨a, as, ha, has, h⟩, hok, hoks⟩ := h
      exact ⟨a, as, ⟨ha, hok⟩, ⟨has, hoks⟩, h.symm⟩

theorem list_eq_ok {reader : Nat → Reader α}
    (h : ∀ inner, levels = inner + 1 → ∀ source v, value inner source = .ok v →
      ∀ a, reader inner source = .ok a ↔ reads v a ∧ ok source)
    (source : Source) (v : Value) (hv : value levels source = .ok v) (as : List α) :
    list reader levels source = .ok as ↔ Lists reads v as ∧ ∀ item ∈ source.items, ok item := by
  cases readAs_of_value hv with
  | array hitems =>
    rw [list, read_eq_ok (h _ rfl) hitems]
    apply and_congr_left
    intro _
    constructor
    · intro hall
      exact ⟨hall⟩
    · intro hlist
      cases hlist with
      | array hall => exact hall
  | null | boolean | number | string | object =>
    refine iff_of_false nofun ?_
    intro ⟨hlist, _⟩
    cases hlist

theorem orElse_of_ne {default : α} {reader : Reader α} {source : Source} {v : Value} (hv : value levels source = .ok v)
    (hne : v ≠ .null) : orElse default reader source = reader source := by
  cases readAs_of_value hv with
  | null => exact absurd rfl hne
  | boolean | number | string | array | object => rfl

/-- A field that may be `null`, beside the same field of a value. -/
theorem takes_iff {default : α} {reader : Reader α} {found : Option Source} {field : Option Value}
    (hrel : Option.Rel (value levels · = .ok ·) found field)
    (h : ∀ source v, value levels source = .ok v → ∀ a, reader source = .ok a ↔ reads v a ∧ ok source)
    (not_null : ∀ a, ¬reads .null a) (hok : ∀ stop, ok (.null stop)) {a : α} :
    Takes default (orElse default reader) found a ↔
      Supplies default reads field a ∧ ∀ source, found = some source → ok source := by
  cases hrel with
  | none =>
    constructor
    · intro ha
      cases ha
      exact ⟨.absent, nofun⟩
    · intro ⟨ha, _⟩
      cases ha
      exact .absent
  | @some source v hv =>
    simp only [Option.some.injEq, forall_eq']
    -- `null` gives the default before anything reads it: it must be nothing that can be read, too.
    by_cases hnull : v = .null
    · subst hnull
      cases readAs_of_value hv with
      | @null _ stop =>
        constructor
        · intro ha
          cases ha with
          | present ha =>
            obtain rfl := Except.ok.inj ha
            exact ⟨.null, hok stop⟩
        · intro ⟨ha, _⟩
          cases ha with
          | null => exact .present rfl
          | held ha => exact absurd ha (not_null a)
    · have hread : orElse default reader source = .ok a ↔ reads v a ∧ ok source := by
        rw [orElse_of_ne hv hnull, h source v hv]
      constructor
      · intro ha
        cases ha with
        | present ha =>
          obtain ⟨ha, hok⟩ := hread.1 ha
          exact ⟨.held ha, hok⟩
      · intro ⟨ha, hok⟩
        cases ha with
        | null => exact absurd rfl hnull
        | held ha => exact .present (hread.2 ⟨ha, hok⟩)

/-- The same of a reader that asks nothing else of the text. -/
theorem takes_iff_supplies {default : α} {reader : Reader α} {found : Option Source} {field : Option Value}
    (hrel : Option.Rel (value levels · = .ok ·) found field)
    (h : ∀ source v, value levels source = .ok v → ∀ a, reader source = .ok a ↔ reads v a)
    (not_null : ∀ a, ¬reads .null a) {a : α} :
    Takes default (orElse default reader) found a ↔ Supplies default reads field a := by
  have hread : ∀ source v, value levels source = .ok v → ∀ a, reader source = .ok a ↔ reads v a ∧ True := by
    intro source v hv a
    rw [h source v hv, and_true]
  rw [takes_iff hrel hread not_null fun _ => trivial]
  exact and_iff_left fun _ _ => trivial

end

end Json

open Json (Takes)

/-! ## Marks -/

namespace Mark

def fields : List (Json.Field Mark) :=
  [.of "type" (fun _ => Json.orElse "" Json.text) fun type mark => { mark with type },
   .of "attrs" (fun levels => Json.orElse [] (Json.dictionary Json.value levels)) fun attrs mark => { mark with attrs }]

theorem reader_eq (levels : Nat) : reader levels = Json.record "Mark" fields {} levels := rfl

theorem fields_commute : fields.Pairwise Json.Field.Commutes := by
  simp only [fields, List.pairwise_cons, List.forall_mem_cons, List.not_mem_nil, false_implies, implies_true,
    List.Pairwise.nil, and_true]
  exact Json.Field.commutes_of fun _ _ _ => rfl

theorem fieldsRead_iff {levels : Nat} {found : String → Option Source} {mark : Mark} :
    FieldsRead levels found fields {} mark ↔ Takes "" (Json.orElse "" Json.text) (found "type") mark.type ∧
      Takes [] (Json.orElse [] (Json.dictionary Json.value levels)) (found "attrs") mark.attrs := by
  constructor
  · intro ⟨_, hfirst, _, hsecond, h⟩
    obtain ⟨type, htype, rfl⟩ := (Json.Field.step_of "" rfl).1 hfirst
    obtain ⟨attrs, hattrs, rfl⟩ := (Json.Field.step_of [] rfl).1 hsecond
    obtain rfl : mark = _ := h
    exact ⟨htype, hattrs⟩
  · intro ⟨htype, hattrs⟩
    exact ⟨_, (Json.Field.step_of "" rfl).2 ⟨_, htype, rfl⟩, _, (Json.Field.step_of [] rfl).2 ⟨_, hattrs, rfl⟩, rfl⟩

theorem fieldsRead_given {levels : Nat} {source : Source} {v : Value} {given : Fields} {mark : Mark}
    (hv : Json.value (levels + 1) source = .ok v) (form : v.recordFields? fieldNames = some given)
    (once : source.FieldsOnce fieldNames) :
    FieldsRead levels ((source.recordFields fieldNames).lookup ·) fields {} mark ↔
      Supplies "" (· = .string ·) (given.lookup "type") mark.type ∧
        Supplies [] (· = .object ·) (given.lookup "attrs") mark.attrs := by
  have hrel := Json.lookup_recordFields hv form once
  rw [fieldsRead_iff, Json.takes_iff_supplies (hrel "type" (by decide)) (fun _ _ hv _ => Json.text_eq_ok hv) nofun,
    Json.takes_iff_supplies (hrel "attrs" (by decide)) (fun _ _ hv _ => Json.dictionary_eq_ok hv) nofun]

theorem reader_eq_ok {levels : Nat} {source : Source} {v : Value} (hv : Json.value levels source = .ok v)
    {mark : Mark} :
    reader levels source = .ok mark ↔ ofValue v = .ok mark ∧ source.FieldsOnce fieldNames := by
  have hnames : fields.map Json.Field.name = fieldNames := rfl
  rw [reader_eq, Json.record_eq_ok_text (by decide) (by decide) fields_commute hv, hnames]
  constructor
  · intro ⟨inner, given, hlevels, form, once, hread⟩
    subst hlevels
    obtain ⟨type, attrs⟩ := (fieldsRead_given hv form once).1 hread
    exact ⟨ofValue_eq_ok.2 (.record form type attrs), once⟩
  · intro ⟨hmark, once⟩
    cases ofValue_eq_ok.1 hmark with
    | record form type attrs =>
      obtain ⟨inner, rfl⟩ := Json.exists_levels hv form
      exact ⟨inner, _, rfl, form, once, (fieldsRead_given hv form once).2 ⟨type, attrs⟩⟩

end Mark

/-! ## Nodes -/

namespace Node

/-- The nodes that are written in a tree: the whole, and what the nodes have for their content. -/
inductive WrittenIn : Source → Source → Prop
  | whole {tree : Source} : WrittenIn tree tree
  | inside {tree list item node : Source} (hlist : ("content", list) ∈ tree.recordFields fieldNames)
      (hitem : item ∈ list.items) (h : WrittenIn item node) : WrittenIn tree node

/-- No node and no mark that is written in a tree has a field of its own twice. -/
structure FieldsOnce (tree : Source) : Prop where
  nodes : ∀ node, WrittenIn tree node → node.FieldsOnce fieldNames
  marks : ∀ node, WrittenIn tree node → ∀ list, ("marks", list) ∈ node.recordFields fieldNames →
    ∀ mark ∈ list.items, mark.FieldsOnce Mark.fieldNames

theorem fieldsOnce_iff {tree : Source} : FieldsOnce tree ↔ tree.FieldsOnce fieldNames ∧
    (∀ list, ("content", list) ∈ tree.recordFields fieldNames → ∀ item ∈ list.items, FieldsOnce item) ∧
    ∀ list, ("marks", list) ∈ tree.recordFields fieldNames → ∀ mark ∈ list.items, mark.FieldsOnce Mark.fieldNames := by
  constructor
  · intro h
    refine ⟨h.nodes tree .whole, ?_, h.marks tree .whole⟩
    intro list hlist item hitem
    exact ⟨fun node hn => h.nodes node (.inside hlist hitem hn), fun node hn => h.marks node (.inside hlist hitem hn)⟩
  · intro ⟨once, content, marks⟩
    constructor
    · intro node hn
      cases hn with
      | whole => exact once
      | inside hlist hitem hn => exact (content _ hlist _ hitem).nodes node hn
    · intro node hn
      cases hn with
      | whole => exact marks
      | inside hlist hitem hn => exact (content _ hlist _ hitem).marks node hn

theorem listReader_eq (levels : Nat) : listReader levels = Json.list reader levels := by
  funext source
  cases levels with
  | zero => cases source <;> rfl
  | succ levels => cases source <;> rfl

theorem reader_eq (levels : Nat) :
    reader levels = Json.record "Node" (fieldsWith (Json.list reader (levels - 1))) {} levels := by
  cases levels with
  | zero =>
    funext source
    cases source <;> rfl
  | succ levels => rw [reader, listReader_eq, Nat.add_sub_cancel]

theorem fieldsRead_iff {levels : Nat} {nodes : Reader (List Node)} {found : String → Option Source} {node : Node} :
    FieldsRead levels found (fieldsWith nodes) {} node ↔
      Takes "" (Json.orElse "" Json.text) (found "type") node.type ∧
        Takes [] (Json.orElse [] (Json.dictionary Json.value levels)) (found "attrs") node.attrs ∧
        Takes [] (Json.orElse [] nodes) (found "content") node.content ∧
        Takes [] (Json.orElse [] (Json.list Mark.reader levels)) (found "marks") node.marks ∧
        Takes none (Json.optional Json.text) (found "text") node.text := by
  constructor
  · intro ⟨_, h₁, _, h₂, _, h₃, _, h₄, _, h₅, h⟩
    obtain ⟨type, htype, rfl⟩ := (Json.Field.step_of "" rfl).1 h₁
    obtain ⟨attrs, hattrs, rfl⟩ := (Json.Field.step_of [] rfl).1 h₂
    obtain ⟨content, hcontent, rfl⟩ := (Json.Field.step_of [] rfl).1 h₃
    obtain ⟨marks, hmarks, rfl⟩ := (Json.Field.step_of [] rfl).1 h₄
    obtain ⟨text, htext, rfl⟩ := (Json.Field.step_of none rfl).1 h₅
    obtain rfl : node = _ := h
    exact ⟨htype, hattrs, hcontent, hmarks, htext⟩
  · obtain ⟨type, attrs, content, marks, text⟩ := node
    intro ⟨htype, hattrs, hcontent, hmarks, htext⟩
    exact ⟨_, (Json.Field.step_of "" rfl).2 ⟨_, htype, rfl⟩, _, (Json.Field.step_of [] rfl).2 ⟨_, hattrs, rfl⟩,
      _, (Json.Field.step_of [] rfl).2 ⟨_, hcontent, rfl⟩, _, (Json.Field.step_of [] rfl).2 ⟨_, hmarks, rfl⟩,
      _, (Json.Field.step_of none rfl).2 ⟨_, htext, rfl⟩, rfl⟩

theorem fieldsWith_optional (nodes : Reader (List Node)) : ∀ f ∈ fieldsWith nodes, f.required = false := by
  simp [fieldsWith, Json.Field.of]

theorem fieldsWith_commute (nodes : Reader (List Node)) : (fieldsWith nodes).Pairwise Json.Field.Commutes := by
  simp only [fieldsWith, List.pairwise_cons, List.forall_mem_cons, List.not_mem_nil, false_implies, implies_true,
    List.Pairwise.nil, and_true]
  and_intros
  all_goals exact Json.Field.commutes_of fun _ _ _ => rfl

theorem fieldsRead_given {levels : Nat} {source : Source} {v : Value} {given : Fields} {node : Node}
    (ih : ∀ inner, levels = inner + 1 → ∀ source v, Json.value inner source = .ok v → ∀ node,
      reader inner source = .ok node ↔ ofValue v = .ok node ∧ FieldsOnce source)
    (hv : Json.value (levels + 1) source = .ok v) (form : v.recordFields? fieldNames = some given)
    (once : source.FieldsOnce fieldNames) :
    FieldsRead levels ((source.recordFields fieldNames).lookup ·) (fieldsWith (Json.list reader levels)) {} node ↔
      GivenBy given node ∧
        (∀ list, ("content", list) ∈ source.recordFields fieldNames → ∀ item ∈ list.items, FieldsOnce item) ∧
        ∀ list, ("marks", list) ∈ source.recordFields fieldNames →
          ∀ mark ∈ list.items, mark.FieldsOnce Mark.fieldNames := by
  have hrel := Json.lookup_recordFields hv form once
  rw [fieldsRead_iff, Json.optional_eq_orElse,
    Json.takes_iff_supplies (hrel "type" (by decide)) (fun _ _ hv _ => Json.text_eq_ok hv) nofun,
    Json.takes_iff_supplies (hrel "attrs" (by decide)) (fun _ _ hv _ => Json.dictionary_eq_ok hv) nofun,
    Json.takes_iff (hrel "content" (by decide)) (Json.list_eq_ok ih) nofun fun _ => nofun,
    Json.takes_iff (hrel "marks" (by decide)) (Json.list_eq_ok fun _ _ _ _ hv _ => Mark.reader_eq_ok hv) nofun
      fun _ => nofun,
    Json.takes_iff_supplies (hrel "text" (by decide)) (fun _ _ hv _ => Json.optionalText_eq_ok hv) nofun]
  simp only [Json.mem_recordFields once (by decide : "content" ∈ fieldNames),
    Json.mem_recordFields once (by decide : "marks" ∈ fieldNames)]
  constructor
  · intro ⟨htype, hattrs, ⟨hcontent, hnodes⟩, ⟨hmarks, honce⟩, htext⟩
    exact ⟨⟨htype, hattrs, hcontent, hmarks, htext⟩, hnodes, honce⟩
  · intro ⟨h, hnodes, honce⟩
    exact ⟨h.type, h.attrs, ⟨h.content, hnodes⟩, ⟨h.marks, honce⟩, h.text⟩

theorem reader_eq_ok (levels : Nat) : ∀ source v, Json.value levels source = .ok v → ∀ node,
    reader levels source = .ok node ↔ ofValue v = .ok node ∧ FieldsOnce source := by
  induction levels using Nat.strongRecOn with
  | ind levels ih =>
    intro source v hv node
    have hnames : (fieldsWith (Json.list reader (levels - 1))).map Json.Field.name = fieldNames := rfl
    have distinct : ((fieldsWith (Json.list reader (levels - 1))).map Json.Field.name).Nodup := by
      rw [hnames]
      decide
    -- Each level of nodes takes two of the text: the record and the array of its content.
    have inside {outer : Nat} (houter : levels = outer + 1) (inner : Nat) (hinner : outer = inner + 1) :=
      ih inner (by omega)
    rw [reader_eq, Json.record_eq_ok_text distinct (fieldsWith_optional _) (fieldsWith_commute _) hv, hnames,
      ofValue_record, fieldsOnce_iff]
    constructor
    · intro ⟨outer, given, hlevels, form, once, hread⟩
      subst hlevels
      obtain ⟨given', content, marks⟩ := (fieldsRead_given (inside rfl) hv form once).1 hread
      exact ⟨⟨given, form, given'⟩, once, content, marks⟩
    · intro ⟨⟨given, form, hgiven⟩, once, content, marks⟩
      obtain ⟨outer, rfl⟩ := Json.exists_levels hv form
      exact ⟨outer, given, rfl, form, once, (fieldsRead_given (inside rfl) hv form once).2 ⟨hgiven, content, marks⟩⟩

/-- **A text and its value.** Of a text that is a value, what is read as a node is the node of that value, unless a node
or a mark in the text has a field of its own twice. Then nothing is read. -/
theorem ofText_iff_ofValue {text : String} {v : Value} (h : Value.ofText text = .ok v) (node : Node) :
    ofText text = .ok node ↔ ofValue v = .ok node ∧ FieldsOnce (Json.Document.ofString text).tree := by
  obtain ⟨hv, hend⟩ := Json.readText_eq_ok.1 h
  rw [ofText, Json.readText_eq_ok, and_iff_left hend]
  exact reader_eq_ok Json.deepest _ v hv node

/-- A key that comes twice matters in a node, and neither in its attributes nor in what is passed over. -/
theorem ofText_iff_ofValue_twice :
    let attrs : Value := .object [("a", .number (.integer 2))]
    let inner : Value := .array [.string "text", attrs, .null, .array [.array [.string "em"]], .string "hi"]
    let text :=
      "\x7b\"content\":[[\"text\",\x7b\"a\":1,\"a\":2\x7d,null,[[\"em\"]],\"hi\"]],\"x\":\x7b\"b\":0,\"b\":1\x7d\x7d"
    let v : Value := .object [("content", .array [inner]), ("x", .object [("b", .number (.integer 1))])]
    let twice := "\x7b\"content\":[\x7b\"type\":\"a\",\"type\":\"b\"\x7d]\x7d"
    let v' : Value := .object [("content", .array [.object [("type", .string "b")]])]
    Value.ofText text = .ok v ∧ FieldsOnce (Json.Document.ofString text).tree ∧
      Value.ofText twice = .ok v' ∧ ¬FieldsOnce (Json.Document.ofString twice).tree := by
  intro attrs inner text v twice v'
  have h : Value.ofText text = .ok v := by decide +kernel
  have h' : Value.ofText twice = .ok v' := by decide +kernel
  refine ⟨h, ?_, h', fun once => ?_⟩
  · let em : Mark := { type := "em" }
    let node : Node := { type := "text", attrs := [("a", .number (.integer 2))], marks := [em], text := some "hi" }
    exact ((ofText_iff_ofValue h { content := [node] }).1 (by decide +kernel)).2
  · have hread : ofValue v' = .ok { content := [{ type := "b" }] } := by decide +kernel
    have hrefused : ofText twice ≠ .ok { content := [{ type := "b" }] } := by decide +kernel
    exact hrefused ((ofText_iff_ofValue h' _).2 ⟨hread, once⟩)

end Node

end WikiPress
