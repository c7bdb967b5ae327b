import WikiPress.Document.Reading
import WikiPress.Failure
import WikiPress.Notice
import WikiPress.Text.Search

/-!
# Macros

The macros of a wiki that have a counterpart in the output. A macro is known by its key and reads its
settings from the attributes of its node; one that cannot read them fails, and does nothing.
-/

namespace WikiPress

inductive Macro where
  | tableOfContents
  | issueTable
  | approvalsReport
  | changeHistory
  | anchor
  | workflowMetadata
  | issue
  deriving DecidableEq, Repr

namespace Macro

def key : Macro → String
  | .tableOfContents => "toc"
  | .issueTable => "jira-jql-snapshot"
  | .approvalsReport => "approvals-report"
  | .changeHistory => "change-history"
  | .anchor => "anchor"
  | .workflowMetadata => "workflow-metadata"
  | .issue => "jira"

def all : List Macro :=
  [.tableOfContents, .issueTable, .approvalsReport, .changeHistory, .anchor, .workflowMetadata,
   .issue]

def ofKey? (key : String) : Option Macro :=
  all.find? (·.key == key)

def keyOf (node : Node) : String :=
  (node.text? "extensionKey").getD ""

/-! ## Parameters -/

def displayName (name : String) : String :=
  if name = "" then "(unnamed)" else name

/-- A parameter of a macro. The unnamed one has the empty name. -/
def parameter (node : Node) (name : String) : Except MacroFailure String :=
  let found := do
    let parameters ← node.attr? "parameters"
    let macroParams ← parameters.get? "macroParams"
    let parameter ← macroParams.get? name
    let value ← parameter.get? "value"
    value.text?
  match found with
  | some s => .ok s
  | none => .error (.missing (displayName name))

/-! ## Results -/

/-- What a macro gives: markup, and perhaps an anchor to remember and a notice. -/
structure Result where
  fragments : List String
  anchor : Option String := none
  notice : Option Notice := none
  deriving DecidableEq, Repr

/-! ## Tables of issues -/

/-- What a column shows; one without an id shows nothing. -/
structure ColumnField where
  id : Option String := none

structure Column where
  available : Bool := false
  field : Option ColumnField := none

structure SearchLevel where
  jql : String := ""
  title : Option String := none
  columns : List Column := []

/-- A saved search for issues; the macro keeps it as JSON text. Only its first level is shown. -/
structure Search where
  levels : List SearchLevel := []

def ColumnField.reader : Nat → Json.Reader ColumnField :=
  Json.record "FieldValue"
    [.of "id" (fun _ => Json.optional Json.text) fun id field => { field with id }] {}

def Column.reader : Nat → Json.Reader Column :=
  Json.record "FieldPosition"
    [.of "available" (fun _ => Json.flag) fun available column => { column with available },
     .of "value" (fun levels => Json.optional (ColumnField.reader levels))
       fun field column => { column with field }] {}

def SearchLevel.reader : Nat → Json.Reader SearchLevel :=
  Json.record "SnapshotLevel"
    [.of "jql" (fun _ => Json.text) fun jql level => { level with jql },
     .of "title" (fun _ => Json.optional Json.text) fun title level => { level with title },
     .of "fieldsPosition" (Json.list Column.reader) fun columns level => { level with columns }]
    {}

def Search.reader : Nat → Json.Reader Search :=
  Json.record "SnapshotParams"
    [.of "levels" (Json.list SearchLevel.reader) fun levels _ => { levels }] {}

def SearchLevel.fieldIds (level : SearchLevel) : String :=
  let shown := level.columns.filter Column.available
  String.intercalate "," (shown.filterMap fun column => column.field.bind ColumnField.id)

/-- A value in double quotes; quotes in it are escaped. -/
def quotedValue (s : String) : String :=
  "\"" ++ Text.escapeChar '"' s ++ "\""

def SearchLevel.attributes (level : SearchLevel) : List String :=
  [quotedValue level.jql, "fields=" ++ quotedValue level.fieldIds] ++
    ((level.title.filter (· != "")).map fun title => "title=" ++ quotedValue title).toList

def SearchLevel.markup (level : SearchLevel) : String :=
  "\njiraIssuesTable::[" ++ String.intercalate ", " level.attributes ++ "]\n"

/-! ## Workflow -/

def workflowAttributes : List (String × String) :=
  [("Document Owner", "owner"), ("Approved Version", "approved-version"),
   ("Approval Date", "approval-date"), ("Expiry Date", "expiry-date"), ("Current State", "state"),
   ("Approvers", "approvers")]

/-! ## Rendering -/

def render (node : Node) : Macro → Except MacroFailure Result
  | .tableOfContents => .ok { fragments := ["\n:toc:\n"] }
  | .issueTable => do
    let source ← parameter node "macroParams"
    match Json.readText (Search.reader Json.deepest) source with
    | .error reason => .error (.invalid "macroParams" reason)
    | .ok search => .ok { fragments := (search.levels.head?.map SearchLevel.markup).toList }
  | .approvalsReport =>
    let scope :=
      match parameter node "scope" with
      | .ok "all" => "all"
      | _ => "current"
    .ok { fragments := ["\napprovalsReport::[scope=" ++ scope ++ "]\n"] }
  | .changeHistory => .ok { fragments := ["\nchangeLogTable::[]\n"] }
  | .anchor => do
    let id := Text.trim (← parameter node "")
    if id = "" then .error (.invalid (displayName "") "empty anchor name")
    else .ok { fragments := ["[[" ++ id ++ "]]"], anchor := some id }
  | .workflowMetadata => do
    let label := Text.trim (← parameter node "")
    match workflowAttributes.lookup label with
    | some name => .ok { fragments := ["\x7bworkflow-" ++ name ++ "\x7d"] }
    | none =>
      .ok { fragments := ["\n// Unmapped workflow metadata: " ++ label ++ "\n"],
            notice := some (.unmappedLabel label) }
  | .issue => do
    let key := Text.trim (← parameter node "key")
    .ok { fragments := ["jira:" ++ key ++ "[]"] }

def failureComment (key : String) (failure : MacroFailure) : String :=
  "\n// Error processing " ++ key ++ " macro: " ++ failure.message ++ "\n"

/-! ## Registries -/

/-- Macros stand between blocks or in a line; the same key may mean different things there. -/
inductive Position where
  | block
  | inline
  deriving DecidableEq, Repr

def Position.name : Position → String
  | .block => "block"
  | .inline => "inline"

structure Registry where
  block : List Macro
  inline : List Macro
  deriving DecidableEq, Repr

def Registry.standard : Registry :=
  ⟨[.tableOfContents, .issueTable, .approvalsReport, .changeHistory],
   [.anchor, .workflowMetadata, .issue]⟩

def Registry.find? (registry : Registry) (position : Position) (key : String) : Option Macro :=
  let macros :=
    match position with
    | .block => registry.block
    | .inline => registry.inline
  macros.find? (·.key == key)

end Macro

end WikiPress
