import Mathlib.Control.Monad.Basic
import WikiPress.Proofs.Complaint
import WikiPress.Proofs.Walk
import WikiPress.Render

/-!
# Macros that fail

A macro that fails has read its parameters and done nothing else. In its place there is a comment of one line, whatever
the parameters hold.
-/

namespace WikiPress

open Text (OneLine)

namespace Macro

/-! ## Failures in one line -/

theorem oneLine_key (handler : Macro) : OneLine handler.key := by
  cases handler <;> decide

theorem key_of_find? {registry : Registry} {position : Position} {key : String} {handler : Macro}
    (h : registry.find? position key = some handler) : handler.key = key := by
  have hkey := List.find?_some h
  exact eq_of_beq hkey

theorem oneLine_missing {name : String} (h : OneLine name) : OneLine (MacroFailure.missing name).message := by
  show OneLine ("missing parameter '" ++ name ++ "'")
  simp +decide [h]

theorem oneLine_invalid {name reason : String} (h : OneLine name) (h' : OneLine reason) :
    OneLine (MacroFailure.invalid name reason).message := by
  show OneLine ("invalid parameter '" ++ name ++ "': " ++ reason)
  simp +decide [h, h']

abbrev FailsInLine {α : Type} (result : Except MacroFailure α) : Prop :=
  Answers (fun failure => OneLine failure.message) (fun _ => True) result

theorem parameter_failsInLine (node : Node) {name : String} (h : OneLine (displayName name)) :
    FailsInLine (parameter node name) := by
  unfold parameter
  simp only
  split
  · trivial
  · exact oneLine_missing h

theorem columnField_readsInLine (levels : Nat) : Json.ReadsInLine (ColumnField.reader levels) := by
  refine Json.record_readsInLine (by decide) ?_ _ levels
  exact List.forall_mem_singleton.2 (.of (by decide) fun _ => Json.optional_readsInLine Json.text_readsInLine)

theorem column_readsInLine (levels : Nat) : Json.ReadsInLine (Column.reader levels) := by
  refine Json.record_readsInLine (by decide) ?_ _ levels
  refine List.forall_mem_cons.2 ⟨.of (by decide) fun _ => Json.flag_readsInLine, List.forall_mem_singleton.2 ?_⟩
  exact .of (by decide) fun levels => Json.optional_readsInLine (columnField_readsInLine levels)

theorem searchLevel_readsInLine (levels : Nat) : Json.ReadsInLine (SearchLevel.reader levels) := by
  refine Json.record_readsInLine (by decide) ?_ _ levels
  refine List.forall_mem_cons.2 ⟨.of (by decide) fun _ => Json.text_readsInLine, List.forall_mem_cons.2 ⟨?_, ?_⟩⟩
  · exact .of (by decide) fun _ => Json.optional_readsInLine Json.text_readsInLine
  · exact List.forall_mem_singleton.2 (.of (by decide) (Json.list_readsInLine column_readsInLine))

theorem search_readsInLine (levels : Nat) : Json.ReadsInLine (Search.reader levels) := by
  refine Json.record_readsInLine (by decide) ?_ _ levels
  exact List.forall_mem_singleton.2 (.of (by decide) (Json.list_readsInLine searchLevel_readsInLine))

/-- Also what a search quotes from its text is told in one line. -/
theorem render_failsInLine (node : Node) (handler : Macro) : FailsInLine (handler.render node) := by
  cases handler with
  | tableOfContents | approvalsReport | changeHistory => trivial
  | issueTable =>
    refine (parameter_failsInLine node (by decide)).bind fun source _ => ?_
    split
    · rename_i reason hreason
      refine oneLine_invalid (by decide) ?_
      exact (Json.readText_oneLine (search_readsInLine Json.deepest) source).of_error hreason
    · trivial
  | anchor =>
    refine (parameter_failsInLine node (by decide)).bind fun id _ => ?_
    simp only
    split
    · exact oneLine_invalid (by decide) (by decide)
    · trivial
  | workflowMetadata =>
    refine (parameter_failsInLine node (by decide)).bind fun label _ => ?_
    simp only
    split <;> trivial
  | issue => exact (parameter_failsInLine node (by decide)).bind fun key _ => trivial

end Macro

namespace Render

/-! ## Handlers step by step -/

/-- A handler as it goes along: what it has done to the memory stays done if it fails afterwards. -/
def perform (node : Node) : Macro → ExceptT MacroFailure RenderM (List String)
  | .anchor => do
    let id := Text.trim (← Macro.parameter node "")
    if id = "" then throw (.invalid (Macro.displayName "") "empty anchor name")
    else
      modify (·.addAnchor id)
      return ["[[" ++ id ++ "]]"]
  | .workflowMetadata => do
    let label := Text.trim (← Macro.parameter node "")
    match Macro.workflowAttributes.lookup label with
    | some name => return ["\x7bworkflow-" ++ name ++ "\x7d"]
    | none =>
      modify (·.note (.unmappedLabel label))
      return ["\n// Unmapped workflow metadata: " ++ label ++ "\n"]
  | handler => do return (← handler.render node).fragments

def remember (result : Macro.Result) (memory : Memory) : Memory :=
  ((addAnchor result.anchor *> noteAll result.notice.toList).run memory).2

section
variable {α β : Type}

theorem ok_bind (a : α) (f : α → Except MacroFailure β) : ((.ok a : Except MacroFailure α) >>= f) = f a := rfl

theorem lift_ok_bind (a : α) (f : α → ExceptT MacroFailure RenderM β) :
    (liftM (.ok a : Except MacroFailure α) >>= f) = f a := rfl

end

/-- Every handler is done with its checks before it changes anything. -/
theorem run_perform (node : Node) (handler : Macro) (memory : Memory) :
    (perform node handler).run.run memory =
      match handler.render node with
      | .ok result => (.ok result.fragments, remember result memory)
      | .error failure => (.error failure, memory) := by
  cases handler with
  | tableOfContents | approvalsReport | changeHistory => rfl
  | issueTable =>
    unfold perform Macro.render
    cases Macro.parameter node "macroParams" with
    | error failure => rfl
    | ok source =>
      simp only [ok_bind]
      cases Json.readText (Macro.Search.reader Json.deepest) source <;> rfl
  | anchor =>
    unfold perform Macro.render
    cases Macro.parameter node "" with
    | error failure => rfl
    | ok id =>
      simp only [ok_bind, lift_ok_bind]
      by_cases hid : Text.trim id = ""
      · simp only [if_pos hid]
        rfl
      · simp only [if_neg hid]
        rfl
  | workflowMetadata =>
    unfold perform Macro.render
    cases Macro.parameter node "" with
    | error failure => rfl
    | ok label =>
      simp only [ok_bind, lift_ok_bind]
      cases Macro.workflowAttributes.lookup (Text.trim label) <;> rfl
  | issue =>
    unfold perform Macro.render
    cases Macro.parameter node "key" <;> rfl

theorem perform_of_failed {node : Node} {handler : Macro} {failure : MacroFailure}
    (h : handler.render node = .error failure) (memory : Memory) :
    (perform node handler).run.run memory = (.error failure, memory) := by
  rw [run_perform, h]

theorem failed_of_perform {node : Node} {handler : Macro} {memory : Memory} {failure : MacroFailure}
    (h : ((perform node handler).run.run memory).1 = .error failure) : handler.render node = .error failure := by
  rw [run_perform] at h
  cases hrender : handler.render node with
  | ok result =>
    rw [hrender] at h
    cases h
  | error other =>
    rw [hrender] at h
    cases h
    rfl

/-- What becomes of a macro: its markup, or a comment if it failed, and then the failure is told. -/
def settle (position : Macro.Position) (node : Node) : Except MacroFailure (List String) → RenderM (List String)
  | .ok fragments => return fragments
  | .error failure => do
    note (.macroFailed position.name (Macro.keyOf node) failure.message)
    return [Macro.failureComment (Macro.keyOf node) failure]

theorem renderMacro_eq (position : Macro.Position) (node : Node) (handler : Macro) :
    renderMacro position node handler = (perform node handler).run >>= settle position node := by
  funext memory
  refine Eq.trans ?_ (run_bind (run_perform node handler memory)).symm
  show (renderMacro position node handler).run memory = _
  unfold renderMacro
  cases handler.render node <;> rfl

/-! ## A macro in a document -/

def macroKind : Macro.Position → Node.Kind
  | .block => .blockMacro
  | .inline => .inlineMacro

def told (position : Macro.Position) (node : Node) (failure : MacroFailure) (memory : Memory) : Memory :=
  { memory with
    notices := .macroFailed position.name (Macro.keyOf node) failure.message :: memory.notices }

theorem failureComment_eq (key : String) (failure : MacroFailure) : Macro.failureComment key failure =
    "\n" ++ ("// Error processing " ++ key ++ " macro: " ++ failure.message) ++ "\n" := by
  have hstart : "\n// Error processing " = "\n" ++ "// Error processing " := by decide
  show "\n// Error processing " ++ key ++ " macro: " ++ failure.message ++ "\n" = _
  rw [hstart]
  simp only [String.append_assoc]

section
variable {position : Macro.Position} {node : Node} {handler : Macro} {context : Context} {failure : MacroFailure}
  (hfind : context.setting.macros.find? position (Macro.keyOf node) = some handler)
include hfind

theorem oneLine_comment (h : handler.render node = .error failure) :
    OneLine ("// Error processing " ++ Macro.keyOf node ++ " macro: " ++ failure.message) := by
  have hkey : OneLine (Macro.keyOf node) := Macro.key_of_find? hfind ▸ Macro.oneLine_key handler
  have hmessage : OneLine failure.message := (Macro.render_failsInLine node handler).of_error h
  simp +decide [hkey, hmessage]

theorem render_handled (hkind : node.kind = macroKind position) {place : Place}
    (hskip : context.memory.skipped ≠ some place) (indent : String) :
    (Walk.render place indent node).run context =
      (Walk.onMemory (renderMacro position node handler)).run context := by
  have hrule : Rule.ofNode context.setting context.scope indent node = .leaf (.handled position handler) := by
    cases position <;> simp only [Rule.ofNode, hkind, macroKind, Rule.ofMacro, hfind]
  rw [Walk.run_render hskip indent hrule]
  rfl

/-- **Macros that fail.** A handler that fails in some context leaves the memory as it was. In place of the macro there
is a comment in a line of its own, and of all that rendering knows only the notices are others afterwards. -/
theorem macro_failure (hfail : ((perform node handler).run.run context.memory).1 = .error failure) :
    ∃ line, line = "// Error processing " ++ Macro.keyOf node ++ " macro: " ++ failure.message ∧ OneLine line ∧
      (perform node handler).run.run context.memory = (.error failure, context.memory) ∧
      (∀ place, (renderAsMacro context.setting context.scope place position node).run context.memory =
        (["\n" ++ line ++ "\n"], told position node failure context.memory)) ∧
      ∀ place indent, node.kind = macroKind position → context.memory.skipped ≠ some place →
        (Walk.render place indent node).run context =
          (["\n" ++ line ++ "\n"], { context with memory := told position node failure context.memory }) := by
  have hrender := failed_of_perform hfail
  have hperform := perform_of_failed hrender context.memory
  have hline := failureComment_eq (Macro.keyOf node) failure
  have hrun : (renderMacro position node handler).run context.memory =
      ([Macro.failureComment (Macro.keyOf node) failure], told position node failure context.memory) := by
    rw [renderMacro_eq, run_bind hperform]
    rfl
  rw [hline] at hrun
  refine ⟨_, rfl, oneLine_comment hfind hrender, hperform, fun place => ?_, fun place indent hkind hskip => ?_⟩
  · rw [renderAsMacro, hfind]
    exact hrun
  · rw [render_handled hfind hkind hskip, Walk.run_onMemory, hrun]

end

/-- The parameters are a text of two lines, and the comment quotes it in one. -/
theorem macro_failure_quotes :
    let macroParams : Json.Value := .object [("macroParams", .object [("value", .string "\"a\\nb\"")])]
    let node : Node :=
      { type := "extension",
        attrs := [("extensionKey", .string "jira-jql-snapshot"), ("parameters", .object [("macroParams", macroParams)])] }
    ((Walk.render [] "" node).run {}).1 =
      ["\n// Error processing jira-jql-snapshot macro: invalid parameter 'macroParams': " ++
        "invalid type: string \"a\\nb\", expected struct SnapshotParams at line 1 column 6\n"] := by
  intro macroParams node
  let context : Context := {}
  have hfind : context.setting.macros.find? .block (Macro.keyOf node) = some .issueTable := by decide
  let reason := "invalid type: string \"a\\nb\", expected struct SnapshotParams at line 1 column 6"
  have hfail : ((perform node .issueTable).run.run context.memory).1 = .error (.invalid "macroParams" reason) := by
    decide +kernel
  obtain ⟨line, hline, -, -, -, hrender⟩ := macro_failure hfind hfail
  have hrun := congrArg Prod.fst (hrender [] "" rfl nofun)
  rw [hline] at hrun
  exact hrun.trans (by decide +kernel)

end Render

end WikiPress
