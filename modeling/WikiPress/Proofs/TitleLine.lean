import WikiPress.Proofs.InLine
import WikiPress.Proofs.Walk

/-!
# Lines of their own

A heading, the title of an image and the comment on an unknown label each have a line of their own. What is put there is
trimmed and nothing else, so the line holds if and only if the text does not break inside.
-/

namespace WikiPress.Render

open Text (OneLine BreaksInside)

/-! ## Headings -/

def headingLine (level : Nat) (text : String) : String :=
  repeated level '=' ++ " " ++ Text.trim text

theorem headingMarkup_eq (level : Nat) (text : String) :
    headingMarkup level text = "\n" ++ headingLine level text ++ "\n" := by
  show "\n" ++ repeated level '=' ++ " " ++ Text.trim text ++ "\n" = _
  simp only [headingLine, String.append_assoc]

theorem headingLevel_bounds (node : Node) : 1 ≤ headingLevel node ∧ headingLevel node ≤ 6 := by
  unfold headingLevel
  omega

theorem oneLine_repeated (n : Nat) {c : Char} (h : '\n' ≠ c) : OneLine (repeated n c) := by
  rw [repeated, Text.oneLine_ofList]
  exact fun hm => h (List.eq_of_mem_replicate hm)

theorem oneLine_headingLine (level : Nat) (text : String) :
    OneLine (headingLine level text) ↔ ¬BreaksInside text := by
  have hmarker : OneLine (repeated level '=' ++ " ") := (oneLine_repeated level (by decide)).append (by decide)
  rw [headingLine, Text.oneLine_append, Text.oneLine_trim_iff, and_iff_right hmarker]

/-! ## Titles of images -/

/-- The title that is shown above an image: one that is not the name of its file. -/
def shownTitle? (options : Options) (node : Node) (caption : Option String) : Option String :=
  (imageTitle? node caption).filter (· != mediaFileName options node)

def titleLine : Option String → String
  | some title => "." ++ title ++ "\n"
  | none => ""

def imageLine (options : Options) (node : Node) : String :=
  "image::" ++ mediaFileName options node ++ "[]\n"

theorem imageBlock_eq (options : Options) (node : Node) (caption : Option String) :
    imageBlock options node caption = titleLine (shownTitle? options node caption) ++ imageLine options node := by
  unfold imageBlock shownTitle? imageLine
  simp only
  cases imageTitle? node caption with
  | none => exact String.empty_append.symm
  | some title =>
    by_cases h : title = mediaFileName options node
    · simp only [if_pos h]
      rw [Option.filter_some, if_neg (by simpa using h)]
      exact String.empty_append.symm
    · simp only [if_neg h]
      rw [Option.filter_some, if_pos (by simpa using h)]
      simp only [titleLine, String.append_assoc]

/-- Does a title break? It is a caption that says something, or else the text that stands for the image. -/
def TitleBreaks (node : Node) (caption : Option String) : Prop :=
  match caption.filter fun text => !Text.isAllBlank text with
  | some text => BreaksInside text
  | none => ∃ alt ∈ node.someText? "alt", ¬OneLine alt

theorem filter_trim (caption : Option String) : (caption.map Text.trim).filter (· != "") =
    (caption.filter fun text => !Text.isAllBlank text).map Text.trim := by
  cases caption with
  | none => rfl
  | some text =>
    rw [Option.map_some, Option.filter_some, Option.filter_some]
    by_cases h : Text.isAllBlank text = true
    · simp [h, (Text.trim_eq_empty_iff text).2 h]
    · simp [h, mt (Text.trim_eq_empty_iff text).1 h]

theorem oneLine_imageTitle {node : Node} {caption : Option String} {title : String}
    (h : imageTitle? node caption = some title) : OneLine title ↔ ¬TitleBreaks node caption := by
  rw [imageTitle?, filter_trim] at h
  unfold TitleBreaks
  cases hcaption : caption.filter fun text => !Text.isAllBlank text with
  | none =>
    rw [hcaption] at h
    have halt : node.someText? "alt" = some title := h
    simp [halt]
  | some text =>
    rw [hcaption] at h
    cases h
    exact Text.oneLine_trim_iff

theorem oneLine_shownTitle {options : Options} {node : Node} {caption : Option String} {title : String}
    (h : title ∈ shownTitle? options node caption) : OneLine title ↔ ¬TitleBreaks node caption :=
  oneLine_imageTitle (Option.filter_eq_some_iff.1 h).1

theorem not_titleBreaks {node : Node} {caption : Option String} (hcaption : ∀ text ∈ caption, OneLine text)
    (halt : ∀ alt ∈ node.someText? "alt", OneLine alt) : ¬TitleBreaks node caption := by
  unfold TitleBreaks
  split
  · rename_i text htext
    exact (hcaption text (Option.filter_eq_some_iff.1 htext).1).not_breaksInside
  · rintro ⟨alt, hmem, hbreak⟩
    exact hbreak (halt alt hmem)

/-! ## Comments on labels -/

def labelLine (label : String) : String :=
  "// Unmapped workflow metadata: " ++ Text.trim label

theorem oneLine_labelLine (label : String) : OneLine (labelLine label) ↔ ¬BreaksInside label := by
  have hstart : OneLine "// Unmapped workflow metadata: " := by decide
  show OneLine ("// Unmapped workflow metadata: " ++ Text.trim label) ↔ _
  rw [Text.oneLine_append, Text.oneLine_trim_iff, and_iff_right hstart]

section
variable {place : Place} {context : Context} (hskip : context.memory.skipped ≠ some place) {node : Node}
include hskip

theorem render_heading (hkind : node.kind = .heading) (indent : String) :
    ((Walk.render place indent node).run context).1 =
      ["\n" ++ headingLine (headingLevel node)
        (String.join ((Walk.renderAll place "" 0 node.content).run context).1) ++ "\n"] := by
  rw [Walk.run_render hskip indent (by rw [Rule.ofNode, hkind]), Walk.renderAll_eq, ← headingMarkup_eq]
  rfl

theorem render_media (hkind : node.kind = .media) (indent : String) :
    ((Walk.render place indent node).run context).1 = [imageBlock context.setting.options node none] := by
  rw [Walk.run_render hskip indent (by rw [Rule.ofNode, hkind])]
  rfl

theorem render_figure {index : Nat} {media : Node} (hkind : node.kind = .mediaSingle)
    (hmedia : firstMedia? node.content = some (index, media)) (indent : String) :
    ∃ others, ((Walk.render place indent node).run context).1 =
      ("\n" ++ imageBlock context.setting.options media
        (((Walk.renderCaption place 0 node.content).run context).1.map Prod.snd)) :: others := by
  have hrule : Rule.ofNode context.setting context.scope indent node = .figure index media := by
    rw [Rule.ofNode, hkind]
    simp only [hmedia]
  rw [Walk.run_render hskip indent hrule, Walk.renderCaption_eq]
  exact ⟨_, rfl⟩

theorem render_label {label : String} (hkind : node.kind = .inlineMacro)
    (hfind : context.setting.macros.find? .inline (Macro.keyOf node) = some .workflowMetadata)
    (hlabel : Macro.parameter node "" = .ok label) (hnone : Macro.workflowAttributes.lookup (Text.trim label) = none)
    (indent : String) :
    ((Walk.render place indent node).run context).1 = ["\n" ++ labelLine label ++ "\n"] := by
  have hrule : Rule.ofNode context.setting context.scope indent node = .leaf (.handled .inline .workflowMetadata) := by
    rw [Rule.ofNode, hkind]
    simp only [Rule.ofMacro, hfind]
  have hresult : Macro.render node .workflowMetadata =
      .ok { fragments := ["\n// Unmapped workflow metadata: " ++ Text.trim label ++ "\n"],
            notice := some (.unmappedLabel (Text.trim label)) } := by
    unfold Macro.render
    rw [hlabel]
    simp only [bind, Except.bind, hnone]
  have hline : "\n// Unmapped workflow metadata: " = "\n" ++ "// Unmapped workflow metadata: " := by decide
  rw [Walk.run_render hskip indent hrule]
  show ((renderMacro .inline node .workflowMetadata).run context.memory).1 = _
  rw [run_renderMacro hfind, handledMarkup, hfind]
  simp only [hresult, hline]
  show _ = ["\n" ++ ("// Unmapped workflow metadata: " ++ Text.trim label) ++ "\n"]
  rw [← String.append_assoc]

end

/-! ## Every line -/

def ContentInLine (setting : Setting) (nodes : List Node) : Prop :=
  ∀ inner ∈ nodes, inner.everywhere (isInLine setting) = true

theorem oneLine_visitCaption {setting : Setting} (scope : Scope) (place : Place) (memory : Memory) {nodes : List Node}
    (h : ∀ node ∈ nodes, node.kind = .caption → ContentInLine setting node.content) : ∀ i,
    ∀ caption ∈ ((visitCaption .marked setting scope place i nodes).run memory).1, OneLine caption.2 := by
  induction nodes with
  | nil => exact fun _ _ hc => nomatch hc
  | cons node nodes ih =>
    intro i
    unfold visitCaption
    by_cases hk : node.kind = .caption
    · rw [if_pos hk, visitContent_def]
      intro caption hc
      cases hc
      exact oneLine_content (h node (List.mem_cons_self ..) hk) scope (i :: place) memory
    · rw [if_neg hk]
      exact ih (fun inner hi => h inner (List.mem_cons_of_mem _ hi)) (i + 1)

section
variable {place : Place} {context : Context}

theorem oneLine_renderAll {nodes : List Node} (h : ContentInLine context.setting nodes) :
    OneLine (String.join ((Walk.renderAll place "" 0 nodes).run context).1) := by
  rw [Walk.renderAll_eq]
  exact oneLine_content h context.scope place context.memory

theorem oneLine_renderCaption {nodes : List Node}
    (h : ∀ node ∈ nodes, node.kind = .caption → ContentInLine context.setting node.content) :
    ∀ text ∈ ((Walk.renderCaption place 0 nodes).run context).1.map Prod.snd, OneLine text := by
  rw [Walk.renderCaption_eq]
  intro text ht
  obtain ⟨caption, hc, rfl⟩ := Option.map_eq_some_iff.1 ht
  exact oneLine_visitCaption context.scope place context.memory h 0 caption hc

end

/-- **Lines of their own.** A heading, the title of an image and the comment on an unknown label stand in one line if
and only if what is put there does not break inside, and so wherever all that is rendered for them is in line. -/
theorem lines_of_their_own {place : Place} {context : Context} (hskip : context.memory.skipped ≠ some place)
    (indent : String) (node : Node) :
    let options := context.setting.options
    let output := ((Walk.render place indent node).run context).1
    (node.kind = .heading →
      let text := String.join ((Walk.renderAll place "" 0 node.content).run context).1
      let line := headingLine (headingLevel node) text
      output = ["\n" ++ line ++ "\n"] ∧ (1 ≤ headingLevel node ∧ headingLevel node ≤ 6) ∧
        (OneLine line ↔ ¬BreaksInside text) ∧ (ContentInLine context.setting node.content → OneLine line)) ∧
    (node.kind = .media →
      output = [titleLine (shownTitle? options node none) ++ imageLine options node] ∧
        ∀ title ∈ shownTitle? options node none, OneLine title ↔ ¬TitleBreaks node none) ∧
    (∀ index media, node.kind = .mediaSingle → firstMedia? node.content = some (index, media) →
      let caption := ((Walk.renderCaption place 0 node.content).run context).1.map Prod.snd
      (∃ others, output = ("\n" ++ (titleLine (shownTitle? options media caption) ++ imageLine options media)) :: others) ∧
        (∀ title ∈ shownTitle? options media caption, OneLine title ↔ ¬TitleBreaks media caption) ∧
        ((∀ alt ∈ media.someText? "alt", OneLine alt) →
          (∀ part ∈ node.content, part.kind = .caption → ContentInLine context.setting part.content) →
          ¬TitleBreaks media caption)) ∧
    ∀ label, node.kind = .inlineMacro →
      context.setting.macros.find? .inline (Macro.keyOf node) = some .workflowMetadata →
      Macro.parameter node "" = .ok label → Macro.workflowAttributes.lookup (Text.trim label) = none →
      output = ["\n" ++ labelLine label ++ "\n"] ∧ (OneLine (labelLine label) ↔ ¬BreaksInside label) := by
  intro options output
  refine ⟨fun hkind => ?_, fun hkind => ?_, fun index media hkind hmedia => ?_,
    fun label hkind hfind hlabel hnone => ?_⟩
  · refine ⟨render_heading hskip hkind indent, headingLevel_bounds node, oneLine_headingLine _ _, fun h => ?_⟩
    exact (oneLine_headingLine _ _).2 (oneLine_renderAll h).not_breaksInside
  · refine ⟨?_, fun title => oneLine_shownTitle⟩
    rw [← imageBlock_eq]
    exact render_media hskip hkind indent
  · refine ⟨?_, fun title => oneLine_shownTitle, fun halt hparts => ?_⟩
    · rw [← imageBlock_eq]
      exact render_figure hskip hkind hmedia indent
    · exact not_titleBreaks (oneLine_renderCaption hparts) halt
  · exact ⟨render_label hskip hkind hfind hlabel hnone indent, oneLine_labelLine label⟩

def textNode (s : String) : Node :=
  { type := "text", text := some s }

theorem lines_of_their_own_heading :
    let heading : Node := { type := "heading", attrs := [("level", .number (.integer 2))], content := [textNode "one "] }
    ((Walk.render [] "" heading).run {}).1 = ["\n" ++ "== one" ++ "\n"] ∧ OneLine "== one" := by
  intro heading
  have hskip : ({} : Context).memory.skipped ≠ some [] := nofun
  obtain ⟨houtput, -, -, hin⟩ := (lines_of_their_own hskip "" heading).1 rfl
  have hline : headingLine (headingLevel heading)
      (String.join ((Walk.renderAll [] "" 0 heading.content).run {}).1) = "== one" := by decide +kernel
  rw [hline] at houtput hin
  exact ⟨houtput, hin (by unfold ContentInLine; decide)⟩

/-- A hard break ends the line of a heading and of a caption, and a line end in a parameter that of a comment. -/
theorem not_oneLine_lines :
    (¬ ∀ (node : Node) (place : Place) (indent : String) (context : Context), node.kind = .heading →
      context.memory.skipped ≠ some place →
      ∃ line, ((Walk.render place indent node).run context).1 = ["\n" ++ line ++ "\n"] ∧ OneLine line) ∧
    (¬ ∀ (node media : Node) (index : Nat) (place : Place) (context : Context),
      firstMedia? node.content = some (index, media) →
      ∀ title ∈ shownTitle? context.setting.options media
        (((Walk.renderCaption place 0 node.content).run context).1.map Prod.snd), OneLine title) ∧
    ¬ ∀ (node : Node) (label : String) (place : Place) (indent : String) (context : Context),
      node.kind = .inlineMacro → context.setting.macros.find? .inline (Macro.keyOf node) = some .workflowMetadata →
      Macro.parameter node "" = .ok label → Macro.workflowAttributes.lookup (Text.trim label) = none →
      context.memory.skipped ≠ some place →
      ∃ line, ((Walk.render place indent node).run context).1 = ["\n" ++ line ++ "\n"] ∧ OneLine line := by
  let broken : List Node := [textNode "one", { type := "hardBreak" }, textNode "two"]
  have not_oneLine {output : List String} (text : String) (hout : output = ["\n" ++ text ++ "\n"])
      (htext : ¬OneLine text) : ¬∃ line, output = ["\n" ++ line ++ "\n"] ∧ OneLine line := by
    intro ⟨line, heq, hline⟩
    rw [hout, List.cons.injEq, String.append_left_inj, String.append_right_inj] at heq
    exact htext (heq.1 ▸ hline)
  refine ⟨fun h => ?_, fun h => ?_, fun h => ?_⟩
  · let heading : Node := { type := "heading", attrs := [("level", .number (.integer 2))], content := broken }
    refine not_oneLine "== one +\ntwo" ?_ (by decide) (h heading [] "" {} rfl nofun)
    decide +kernel
  · let media : Node := { type := "media", attrs := [("id", .string "a")] }
    let figure : Node := { type := "mediaSingle", content := [media, { type := "caption", content := broken }] }
    exact absurd (h figure media 0 [] {} rfl "one +\ntwo" (by decide +kernel)) (by decide)
  · let macroParams : Json.Value := .object [("", .object [("value", .string "one\ntwo")])]
    let node : Node :=
      { type := "inlineExtension",
        attrs := [("extensionKey", .string "workflow-metadata"), ("parameters", .object [("macroParams", macroParams)])] }
    refine not_oneLine "// Unmapped workflow metadata: one\ntwo" ?_ (by decide)
      (h node "one\ntwo" [] "" {} rfl (by decide) rfl (by decide) nofun)
    decide +kernel

end WikiPress.Render
