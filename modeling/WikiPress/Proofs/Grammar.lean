import WikiPress.Proofs.RecordValue

/-!
# The grammar of nodes

A node is read from an object or from the array of its fields, and nothing else is asked than that each field holds
what it should, or is absent or `null`. What is read is what the fields hold.
-/

namespace WikiPress

open Json (Value Fields)
open Json.Value (Admits Supplies ArrayOf Lists IsText IsObject)

/-! ## Nodes and marks -/

namespace Mark

def fieldNames : List String :=
  ["type", "attrs"]

/-- An object or an array whose fields are those of a mark. -/
inductive WellFormed : Value → Prop
  | record {value : Value} {fields : Fields} (form : value.recordFields? fieldNames = some fields)
      (type : Admits IsText (fields.lookup "type")) (attrs : Admits IsObject (fields.lookup "attrs")) :
      WellFormed value

/-- What a value says of a mark. -/
inductive Denotes : Value → Mark → Prop
  | record {value : Value} {fields : Fields} {mark : Mark} (form : value.recordFields? fieldNames = some fields)
      (type : Supplies "" (· = .string ·) (fields.lookup "type") mark.type)
      (attrs : Supplies [] (· = .object ·) (fields.lookup "attrs") mark.attrs) :
      Denotes value mark

end Mark

namespace Node

def fieldNames : List String :=
  ["type", "attrs", "content", "marks", "text"]

/-- An object or an array whose fields are those of a node, with well-formed nodes and marks in it. -/
inductive WellFormed : Value → Prop
  | record {value : Value} {fields : Fields} (form : value.recordFields? fieldNames = some fields)
      (type : Admits IsText (fields.lookup "type")) (attrs : Admits IsObject (fields.lookup "attrs"))
      (content : Admits (ArrayOf WellFormed) (fields.lookup "content"))
      (marks : Admits (ArrayOf Mark.WellFormed) (fields.lookup "marks"))
      (text : Admits IsText (fields.lookup "text")) :
      WellFormed value

/-- What a value says of a node: every field as given, or empty. -/
inductive Denotes : Value → Node → Prop
  | record {value : Value} {fields : Fields} {node : Node} (form : value.recordFields? fieldNames = some fields)
      (type : Supplies "" (· = .string ·) (fields.lookup "type") node.type)
      (attrs : Supplies [] (· = .object ·) (fields.lookup "attrs") node.attrs)
      (content : Supplies [] (Lists Denotes) (fields.lookup "content") node.content)
      (marks : Supplies [] (Lists Mark.Denotes) (fields.lookup "marks") node.marks)
      (text : Supplies none (fun v text => ∃ s, v = .string s ∧ text = some s) (fields.lookup "text") node.text) :
      Denotes value node

end Node

/-! ## Marks -/

namespace Mark

theorem listOfValues_eq (items : List Value) : listOfValues items = items.mapM ofValue := by
  induction items with
  | nil => rfl
  | cons item items ih => rw [listOfValues, List.mapM_cons, ih]; rfl

theorem listOfField_eq_ok {marks : List Mark} {field : Option Value} :
    listOfField field = .ok marks ↔ Supplies [] (Lists (ofValue · = .ok ·)) field marks := by
  refine Value.field_eq_ok rfl rfl (fun _ h => nomatch h) ?_
  intro value hv marks
  rw [Value.lists_iff]
  cases value <;> simp_all [listOfField, Value.refuse, listOfValues_eq, Value.mapM_eq_ok]

theorem ofValue_object {fields : Fields} {mark : Mark} : ofValue (.object fields) = .ok mark ↔
    Supplies "" (· = .string ·) (fields.lookup "type") mark.type ∧
      Supplies [] (· = .object ·) (fields.lookup "attrs") mark.attrs := by
  obtain ⟨type, attrs⟩ := mark
  rw [ofValue]
  simp only [bind_eq_ok, Value.textField_eq_ok, Value.fieldsField_eq_ok]
  constructor
  · intro ⟨attrs, hattrs, type, htype, h⟩
    obtain ⟨⟩ := Except.ok.inj h
    exact ⟨htype, hattrs⟩
  · intro ⟨htype, hattrs⟩
    exact ⟨attrs, hattrs, type, htype, rfl⟩

theorem ofValue_array {items : List Value} {mark : Mark} : ofValue (.array items) = .ok mark ↔
    items.length ≤ fieldNames.length ∧ ofValue (.object (fieldNames.zip items)) = .ok mark := by
  have distinct : fieldNames.Nodup := by decide
  have htype : (fieldNames.zip items).lookup "type" = items[0]? := lookup_zip distinct items rfl
  have hattrs : (fieldNames.zip items).lookup "attrs" = items[1]? := lookup_zip distinct items rfl
  rw [ofValue, ofValue, htype, hattrs]
  simp only [bind_eq_ok]
  constructor
  · intro ⟨type, htype, attrs, hattrs, h⟩
    split at h
    · cases h
    · rename_i hlength
      exact ⟨Nat.le_of_not_lt hlength, attrs, hattrs, type, htype, h⟩
  · intro ⟨hlength, attrs, hattrs, type, htype, h⟩
    exact ⟨type, htype, attrs, hattrs, (if_neg (Nat.not_lt.2 hlength)).trans h⟩

theorem ofValue_eq_ok {value : Value} {mark : Mark} : ofValue value = .ok mark ↔ Denotes value mark := by
  have other (value : Value) (hobject : ∀ fields, value ≠ .object fields) (harray : ∀ items, value ≠ .array items) :
      ofValue value ≠ .ok mark := by
    cases value <;> simp_all [ofValue, Value.refuse]
  rw [Value.record_eq_ok (fun _ => ofValue_array) other]
  simp only [ofValue_object]
  constructor
  · intro h
    obtain ⟨fields, form, type, attrs⟩ := h
    exact .record form type attrs
  · intro h
    cases h with
    | record form type attrs => exact ⟨_, form, type, attrs⟩

theorem wellFormed_iff (value : Value) : WellFormed value ↔ ∃ mark, Denotes value mark := by
  constructor
  · intro h
    cases h with
    | record form type attrs =>
      obtain ⟨type, htype⟩ := Value.admits_text.1 type
      obtain ⟨attrs, hattrs⟩ := Value.admits_object.1 attrs
      exact ⟨⟨type, attrs⟩, .record form htype hattrs⟩
  · intro ⟨mark, h⟩
    cases h with
    | record form type attrs =>
      exact .record form (Value.admits_text.2 ⟨_, type⟩) (Value.admits_object.2 ⟨_, attrs⟩)

theorem admits_marks {field : Option Value} :
    Admits (ArrayOf WellFormed) field ↔ ∃ marks, Supplies [] (Lists Denotes) field marks := by
  apply Value.admits_iff
  intro value _
  apply Value.arrayOf_iff
  intro items _ item _
  exact wellFormed_iff item

end Mark

/-! ## Nodes -/

namespace Node

def contentOfField : Option Value → Except Json.Cause (List Node)
  | none => .ok []
  | some value => contentOf value

theorem contentOfFields_eq (fields : List (String × Value)) :
    contentOfFields fields = contentOfField (fields.lookup "content") := by
  induction fields with
  | nil => rfl
  | cons field fields ih =>
    obtain ⟨key, value⟩ := field
    rw [contentOfFields, Dictionary.lookup_cons, ih]
    by_cases h : key = "content"
    · rw [if_pos h, if_pos h.symm]; rfl
    · rw [if_neg h, if_neg fun he => h he.symm]

theorem contentOfItems_eq (items : List Value) :
    ∀ index, contentOfItems index items = contentOfField items[index]? := by
  induction items with
  | nil => exact fun _ => rfl
  | cons item items ih =>
    intro index
    cases index with
    | zero => rfl
    | succ index => exact ih index

theorem listOfValues_eq (items : List Value) : listOfValues items = items.mapM ofValue := by
  induction items with
  | nil => rfl
  | cons item items ih => rw [listOfValues, List.mapM_cons, ih]; rfl

theorem contentOfField_eq_ok {nodes : List Node} {field : Option Value} :
    contentOfField field = .ok nodes ↔ Supplies [] (Lists (ofValue · = .ok ·)) field nodes := by
  refine Value.field_eq_ok rfl rfl (fun _ h => nomatch h) ?_
  intro value hv nodes
  rw [Value.lists_iff]
  cases value <;> simp_all [contentOfField, contentOf, Value.refuse, listOfValues_eq, Value.mapM_eq_ok]

/-- What the fields of a record give to a node. -/
structure GivenBy (fields : Fields) (node : Node) : Prop where
  type : Supplies "" (· = .string ·) (fields.lookup "type") node.type
  attrs : Supplies [] (· = .object ·) (fields.lookup "attrs") node.attrs
  content : Supplies [] (Lists (ofValue · = .ok ·)) (fields.lookup "content") node.content
  marks : Supplies [] (Lists (Mark.ofValue · = .ok ·)) (fields.lookup "marks") node.marks
  text : Supplies none (fun v text => ∃ s, v = .string s ∧ text = some s) (fields.lookup "text") node.text

theorem ofValue_object {fields : Fields} {node : Node} :
    ofValue (.object fields) = .ok node ↔ GivenBy fields node := by
  obtain ⟨type, attrs, content, marks, text⟩ := node
  rw [ofValue, contentOfFields_eq]
  simp only [bind_eq_ok, Value.textField_eq_ok, Value.fieldsField_eq_ok, Value.optionalTextField_eq_ok,
    Mark.listOfField_eq_ok, contentOfField_eq_ok]
  constructor
  · intro ⟨attrs, hattrs, content, hcontent, marks, hmarks, text, htext, type, htype, h⟩
    obtain ⟨⟩ := Except.ok.inj h
    exact ⟨htype, hattrs, hcontent, hmarks, htext⟩
  · intro ⟨htype, hattrs, hcontent, hmarks, htext⟩
    exact ⟨attrs, hattrs, content, hcontent, marks, hmarks, text, htext, type, htype, rfl⟩

theorem ofValue_array {items : List Value} {node : Node} : ofValue (.array items) = .ok node ↔
    items.length ≤ fieldNames.length ∧ ofValue (.object (fieldNames.zip items)) = .ok node := by
  have distinct : fieldNames.Nodup := by decide
  have htype : (fieldNames.zip items).lookup "type" = items[0]? := lookup_zip distinct items rfl
  have hattrs : (fieldNames.zip items).lookup "attrs" = items[1]? := lookup_zip distinct items rfl
  have hcontent : (fieldNames.zip items).lookup "content" = items[2]? := lookup_zip distinct items rfl
  have hmarks : (fieldNames.zip items).lookup "marks" = items[3]? := lookup_zip distinct items rfl
  have htext : (fieldNames.zip items).lookup "text" = items[4]? := lookup_zip distinct items rfl
  rw [ofValue, ofValue, contentOfItems_eq, contentOfFields_eq, htype, hattrs, hcontent, hmarks, htext]
  simp only [bind_eq_ok]
  constructor
  · intro ⟨type, htype, attrs, hattrs, content, hcontent, marks, hmarks, text, htext, h⟩
    split at h
    · cases h
    · rename_i hlength
      exact ⟨Nat.le_of_not_lt hlength, attrs, hattrs, content, hcontent, marks, hmarks, text, htext, type, htype, h⟩
  · intro ⟨hlength, attrs, hattrs, content, hcontent, marks, hmarks, text, htext, type, htype, h⟩
    refine ⟨type, htype, attrs, hattrs, content, hcontent, marks, hmarks, text, htext, ?_⟩
    exact (if_neg (Nat.not_lt.2 hlength)).trans h

theorem ofValue_record {value : Value} {node : Node} :
    ofValue value = .ok node ↔ ∃ fields, value.recordFields? fieldNames = some fields ∧ GivenBy fields node := by
  have other (value : Value) (hobject : ∀ fields, value ≠ .object fields) (harray : ∀ items, value ≠ .array items) :
      ofValue value ≠ .ok node := by
    cases value <;> simp_all [ofValue, Value.refuse]
  rw [Value.record_eq_ok (fun _ => ofValue_array) other]
  simp only [ofValue_object]

theorem ofValue_eq_ok (value : Value) (node : Node) : ofValue value = .ok node ↔ Denotes value node := by
  induction value using Value.record_induction generalizing node with
  | step value ih =>
    have nodes {fields : Fields} (form : value.recordFields? fieldNames = some fields) :
        Supplies [] (Lists (ofValue · = .ok ·)) (fields.lookup "content") node.content ↔
          Supplies [] (Lists Denotes) (fields.lookup "content") node.content := by
      apply Value.supplies_congr
      intro field hfield nodes
      apply Value.lists_congr
      intro items hitems item hitem node
      subst hitems
      exact ih form hfield hitem node
    have marks {fields : Fields} : Supplies [] (Lists (Mark.ofValue · = .ok ·)) (fields.lookup "marks") node.marks ↔
        Supplies [] (Lists Mark.Denotes) (fields.lookup "marks") node.marks := by
      apply Value.supplies_congr
      intro field _ marks
      apply Value.lists_congr
      intro items _ item _ mark
      exact Mark.ofValue_eq_ok
    rw [ofValue_record]
    constructor
    · intro h
      obtain ⟨fields, form, given⟩ := h
      exact .record form given.type given.attrs ((nodes form).1 given.content) (marks.1 given.marks) given.text
    · intro h
      cases h with
      | record form type attrs content hmarks text =>
        exact ⟨_, form, type, attrs, (nodes form).2 content, marks.2 hmarks, text⟩

theorem wellFormed_iff (value : Value) : WellFormed value ↔ ∃ node, Denotes value node := by
  induction value using Value.record_induction with
  | step value ih =>
    have nodes {fields : Fields} (form : value.recordFields? fieldNames = some fields) :
        Admits (ArrayOf WellFormed) (fields.lookup "content") ↔
          ∃ nodes, Supplies [] (Lists Denotes) (fields.lookup "content") nodes := by
      apply Value.admits_iff
      intro field hfield
      apply Value.arrayOf_iff
      intro items hitems item hitem
      subst hitems
      exact ih form hfield hitem
    constructor
    · intro h
      cases h with
      | record form type attrs content marks text =>
        obtain ⟨type, htype⟩ := Value.admits_text.1 type
        obtain ⟨attrs, hattrs⟩ := Value.admits_object.1 attrs
        obtain ⟨content, hcontent⟩ := (nodes form).1 content
        obtain ⟨marks, hmarks⟩ := Mark.admits_marks.1 marks
        obtain ⟨text, htext⟩ := Value.admits_optionalText.1 text
        exact ⟨⟨type, attrs, content, marks, text⟩, .record form htype hattrs hcontent hmarks htext⟩
    · intro ⟨node, h⟩
      cases h with
      | record form type attrs content marks text =>
        exact .record form (Value.admits_text.2 ⟨_, type⟩) (Value.admits_object.2 ⟨_, attrs⟩)
          ((nodes form).2 ⟨_, content⟩) (Mark.admits_marks.2 ⟨_, marks⟩) (Value.admits_optionalText.2 ⟨_, text⟩)

/-- **The grammar of nodes.** A value is read as a node exactly when it is a well-formed one, and what is read is what
its fields say. -/
theorem ofValue_grammar (value : Value) :
    ((∃ node, ofValue value = .ok node) ↔ WellFormed value) ∧
      ∀ node, ofValue value = .ok node ↔ Denotes value node := by
  refine ⟨?_, ofValue_eq_ok value⟩
  rw [wellFormed_iff]
  exact exists_congr (ofValue_eq_ok value)

/-- An array may end before its last fields. -/
example : ofValue (.array [.string "text", .null, .null, .array [.array [.string "em"]]]) =
    .ok { type := "text", marks := [{ type := "em" }] } := by
  rfl

end Node

end WikiPress
