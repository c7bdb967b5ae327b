import WikiPress.Proofs.Below
import WikiPress.Proofs.Grammar

/-!
# Nodes as values

The value of a node is an object with the fields that hold something, and it is read back as the node. So a value that
is read as a node may be exchanged for the value of that node.
-/

namespace WikiPress

open Json (Value Fields)
open Json.Value (Supplies Lists)

namespace Json.Value

theorem lookup_unlessEmpty {α : Type} (name key : String) (items : List α) (value : Value) :
    (unlessEmpty key items value).lookup name = if name = key ∧ items ≠ [] then some value else none := by
  cases items with
  | nil => simp [unlessEmpty]
  | cons item items => simp [unlessEmpty, Dictionary.lookup_cons]

theorem supplies_unlessEmpty {α : Type} {reads : Value → List α → Prop} {items : List α} {value : Value}
    (h : reads value items) : Supplies [] reads (if items ≠ [] then some value else none) items := by
  cases items with
  | nil => exact .absent
  | cons item items => exact .held h

theorem lists_map {α : Type} {write : α → Value} {read : Value → Except Cause α} {as : List α}
    (h : ∀ a ∈ as, read (write a) = .ok a) : Lists (read · = .ok ·) (.array (as.map write)) as := by
  refine ⟨?_⟩
  rw [List.forall₂_map_left_iff, List.forall₂_same]
  exact h

end Json.Value

theorem Mark.ofValue_toValue (mark : Mark) : ofValue mark.toValue = .ok mark := by
  have htype : Supplies "" (· = Value.string ·) (some (.string mark.type)) mark.type := .held rfl
  have hattrs :
      Supplies [] (· = Value.object ·) (if mark.attrs ≠ [] then some (.object mark.attrs) else none) mark.attrs :=
    Value.supplies_unlessEmpty rfl
  rw [toValue, ofValue_object]
  simp only [List.lookup_append, Value.lookup_unlessEmpty, Dictionary.lookup_cons]
  constructor
  · simpa using htype
  · simpa using hattrs

namespace Node

/-! ## The fields of a node -/

/-- The fields of the value of a node. -/
def valueFields (node : Node) : Fields :=
  Value.unlessEmpty "attrs" node.attrs (.object node.attrs) ++
    Value.unlessEmpty "content" node.content (.array (node.content.map toValue)) ++
    Value.unlessEmpty "marks" node.marks (.array (node.marks.map Mark.toValue)) ++
    node.text.toList.map (fun s => ("text", .string s)) ++
    [("type", .string node.type)]

theorem toValues_eq (nodes : List Node) : toValues nodes = nodes.map toValue := by
  induction nodes with
  | nil => rfl
  | cons node nodes ih => rw [toValues, ih]; rfl

theorem toValue_eq (node : Node) : node.toValue = .object node.valueFields := by
  obtain ⟨type, attrs, content, marks, text⟩ := node
  rw [toValue, toValues_eq]
  rfl

/-- The type is written always, the other fields where they hold something. -/
def holds (node : Node) (name : String) : Bool :=
  match name with
  | "attrs" => !node.attrs.isEmpty
  | "content" => !node.content.isEmpty
  | "marks" => !node.marks.isEmpty
  | "text" => node.text.isSome
  | name => name == "type"

theorem keys_valueFields (node : Node) :
    node.valueFields.map Prod.fst = ["attrs", "content", "marks", "text", "type"].filter node.holds := by
  obtain ⟨type, attrs, content, marks, text⟩ := node
  cases attrs <;> cases content <;> cases marks <;> cases text <;> rfl

section
variable (node : Node)

theorem lookup_text (name : String) : (node.text.toList.map fun s => ("text", Value.string s)).lookup name =
    if name = "text" then node.text.map .string else none := by
  cases node.text with
  | none => simp
  | some s => simp [Dictionary.lookup_cons]

theorem lookup_valueFields (name : String) : node.valueFields.lookup name =
    ((((if name = "attrs" ∧ node.attrs ≠ [] then some (.object node.attrs) else none).or
      (if name = "content" ∧ node.content ≠ [] then some (.array (node.content.map toValue)) else none)).or
      (if name = "marks" ∧ node.marks ≠ [] then some (.array (node.marks.map Mark.toValue)) else none)).or
      (if name = "text" then node.text.map .string else none)).or
      (if name = "type" then some (.string node.type) else none) := by
  simp only [valueFields, List.lookup_append, Value.lookup_unlessEmpty, lookup_text, Dictionary.lookup_cons,
    List.lookup_nil]

variable {node}

theorem given_valueFields (h : ∀ inner ∈ node.content, ofValue inner.toValue = .ok inner) :
    GivenBy node.valueFields node := by
  have htype : Supplies "" (· = Value.string ·) (some (.string node.type)) node.type := .held rfl
  have hattrs :
      Supplies [] (· = Value.object ·) (if node.attrs ≠ [] then some (.object node.attrs) else none) node.attrs :=
    Value.supplies_unlessEmpty rfl
  have hcontent := Value.supplies_unlessEmpty (Value.lists_map h)
  have hmarks := Value.supplies_unlessEmpty (Value.lists_map fun mark (_ : mark ∈ node.marks) => mark.ofValue_toValue)
  have htext :
      Supplies none (fun v text => ∃ s, v = Value.string s ∧ text = some s) (node.text.map .string) node.text := by
    cases node.text with
    | none => exact .absent
    | some s => exact .held ⟨s, rfl, rfl⟩
  constructor
  · simpa [lookup_valueFields] using htype
  · simpa [lookup_valueFields] using hattrs
  · simpa [lookup_valueFields] using hcontent
  · simpa [lookup_valueFields] using hmarks
  · simpa [lookup_valueFields] using htext

end

theorem ofValue_toValue (node : Node) : ofValue node.toValue = .ok node := by
  induction node using below_induction with
  | step node ih =>
    rw [toValue_eq, ofValue_object]
    apply given_valueFields
    intro inner hi
    exact ih inner (.child hi)

/-- **The value of a node is read as the node.** So is the value of what was read. It has the keys of the fields that
hold something, in order, and that of the type. -/
theorem toValue_roundTrips :
    (∀ node : Node, ofValue node.toValue = .ok node) ∧
      (∀ (value : Value) (node : Node), ofValue value = .ok node → ofValue node.toValue = .ok node) ∧
      ∀ node : Node, ∃ fields, node.toValue = .object fields ∧
        fields.map Prod.fst = ["attrs", "content", "marks", "text", "type"].filter node.holds := by
  refine ⟨ofValue_toValue, fun value node _ => ofValue_toValue node, fun node => ?_⟩
  exact ⟨node.valueFields, node.toValue_eq, node.keys_valueFields⟩

end Node

end WikiPress
