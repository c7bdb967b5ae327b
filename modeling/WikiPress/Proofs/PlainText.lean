import WikiPress.Proofs.Carry
import WikiPress.Proofs.Leaf
import WikiPress.Proofs.Walk

/-!
# Plain text

The visible characters of a document stand in its AsciiDoc text, all of them and in order. Rendering goes
by the shape of a page: what a rule does not look at holds no text.
-/

namespace WikiPress.Render

/-! ## Well-shaped pages -/

def mayHold : Node.Kind → Node.Kind → Bool
  | .bulletList, inner | .orderedList, inner => inner = .listItem
  | .taskList, inner => inner = .taskItem || inner = .taskList
  | .table, inner => inner = .tableRow
  | .tableRow, inner => inner = .tableCell || inner = .tableHeader
  | _, _ => true

/-- Nodes without content. A macro with a handler counts among them. -/
def isBare (macros : Macro.Registry) (node : Node) : Bool :=
  match node.kind with
  | .text | .rule | .hardBreak | .media | .mediaInline | .mention | .inlineCard | .emoji => true
  | .blockMacro => (macros.find? .block (Macro.keyOf node)).isSome
  | .inlineMacro => (macros.find? .inline (Macro.keyOf node)).isSome
  | _ => false

def wellShaped (macros : Macro.Registry) (node : Node) : Bool :=
  (node.kind = .text || node.text.isNone) && node.kind ≠ .mediaSingle &&
    node.content.all (fun inner => mayHold node.kind inner.kind) && (!isBare macros node || node.content.isEmpty)

section
variable {macros : Macro.Registry} {node : Node}

theorem plainText_def (node : Node) : node.plainText = node.ownText ++ Node.plainTexts node.content := by
  cases node; rfl

theorem plainTexts_append (nodes nodes' : List Node) :
    Node.plainTexts (nodes ++ nodes') = Node.plainTexts nodes ++ Node.plainTexts nodes' := by
  induction nodes with
  | nil => rw [List.nil_append, Node.plainTexts, String.empty_append]
  | cons node nodes ih => rw [List.cons_append, Node.plainTexts, Node.plainTexts, ih, String.append_assoc]

theorem plainTexts_singleton (node : Node) : Node.plainTexts [node] = node.plainText := by
  rw [Node.plainTexts, Node.plainTexts, String.append_empty]

theorem plainText_of_ne_text (h : wellShaped macros node = true) (hk : node.kind ≠ .text) :
    node.plainText = Node.plainTexts node.content := by
  simp only [wellShaped, Bool.and_eq_true, Bool.or_eq_true, decide_eq_true_eq, Option.isNone_iff_eq_none] at h
  have ht : node.text = none := h.1.1.1.resolve_left hk
  rw [plainText_def, Node.ownText, ht, Option.getD_none, String.empty_append]

theorem content_of_bare (h : wellShaped macros node = true) (hb : isBare macros node = true) : node.content = [] := by
  simp only [wellShaped, Bool.and_eq_true, Bool.or_eq_true, hb, Bool.not_true, Bool.false_eq_true, false_or,
    List.isEmpty_iff] at h
  exact h.2

theorem mayHold_of_mem (h : wellShaped macros node = true) {inner : Node} (hi : inner ∈ node.content) :
    mayHold node.kind inner.kind = true := by
  simp only [wellShaped, Bool.and_eq_true, List.all_eq_true] at h
  exact h.1.2 inner hi

theorem ne_mediaSingle (h : wellShaped macros node = true) : node.kind ≠ .mediaSingle := by
  simp only [wellShaped, Bool.and_eq_true, decide_eq_true_eq] at h
  exact h.1.1.2

theorem rows_of_table (h : wellShaped macros node = true) (hk : node.kind = .table) :
    ∀ row ∈ node.content, row.kind = .tableRow := by
  intro row hr
  have hm := mayHold_of_mem h hr
  rw [hk] at hm
  exact of_decide_eq_true hm

theorem cells_of_row (h : wellShaped macros node = true) (hk : node.kind = .tableRow) :
    ∀ cell ∈ node.content, cell.kind = .tableCell ∨ cell.kind = .tableHeader := by
  intro cell hc
  have hm := mayHold_of_mem h hc
  rw [hk] at hm
  simpa [mayHold] using hm

theorem items_of_list (h : wellShaped macros node = true)
    (hk : node.kind = .bulletList ∨ node.kind = .orderedList) : ∀ item ∈ node.content, item.kind = .listItem := by
  intro item hi
  have hm := mayHold_of_mem h hi
  rcases hk with hk | hk <;> rw [hk] at hm <;> exact of_decide_eq_true hm

theorem tasks_of_list (h : wellShaped macros node = true) (hk : node.kind = .taskList) :
    ∀ task ∈ node.content, task.kind = .taskItem ∨ task.kind = .taskList := by
  intro task ht
  have hm := mayHold_of_mem h ht
  rw [hk] at hm
  simpa [mayHold] using hm

theorem plainText_of_bare (h : wellShaped macros node = true) (hb : isBare macros node = true) :
    node.plainText = node.ownText := by
  rw [plainText_def, content_of_bare h hb, Node.plainTexts, String.append_empty]

end

/-! ## What is visited holds all texts -/

theorem plainTexts_flatMap {from' : Node → List Node} {nodes : List Node}
    (h : ∀ node ∈ nodes, node.plainText = Node.plainTexts (from' node)) :
    Node.plainTexts nodes = Node.plainTexts (nodes.flatMap from') := by
  induction nodes with
  | nil => rfl
  | cons node nodes ih =>
    have rest := ih fun n hn => h n (List.mem_cons_of_mem _ hn)
    rw [List.flatMap_cons, plainTexts_append, Node.plainTexts, h node (List.mem_cons_self ..), rest]

theorem plainText_visits {setting : Setting} {scope : Scope} {indent : String} {node : Node} {rule : Rule}
    (hrule : Rule.ofNode setting scope indent node = rule) (hleaf : ∀ leaf, rule ≠ .leaf leaf)
    (h : wellShaped setting.macros node = true)
    (hbelow : ∀ inner, Node.Below inner node → wellShaped setting.macros inner = true) :
    node.plainText = Node.plainTexts (rule.visits node) := by
  have text {inner : Node} (hb : Node.Below inner node) (hk : inner.kind ≠ .text) :
      inner.plainText = Node.plainTexts inner.content := plainText_of_ne_text (hbelow inner hb) hk
  have row {row : Node} (hs : wellShaped setting.macros row = true) (hk : row.kind = .tableRow)
      (hb : ∀ cell ∈ row.content, Node.Below cell node) :
      Node.plainTexts row.content = Node.plainTexts (rowVisits row) := by
    refine plainTexts_flatMap fun cell hc => text (hb cell hc) ?_
    rcases cells_of_row hs hk cell hc with hk | hk <;> simp [hk]
  have fits := ofNode_fits hrule
  rw [plainText_of_ne_text h (kind_ne_text (hrule ▸ hleaf .text))]
  cases rule with
  | leaf leaf => exact absurd rfl (hleaf leaf)
  | wrap _ | through _ _ | cell | item => rfl
  | table =>
    refine plainTexts_flatMap fun inner hi => ?_
    have hk := rows_of_table h fits inner hi
    rw [text (.child hi) (by simp [hk])]
    exact row (hbelow inner (.child hi)) hk fun cell hc => .grandchild hc hi
  | row => exact row h fits fun cell hc => .child hc
  | list bulleted =>
    refine plainTexts_flatMap fun item hi => ?_
    have hk := items_of_list h fits item hi
    rw [itemVisits, if_pos hk]
    exact text (.child hi) (by simp [hk])
  | tasks =>
    refine plainTexts_flatMap fun task hi => ?_
    unfold taskVisits
    rcases tasks_of_list h fits task hi with hk | hk
    · rw [if_pos hk]
      exact text (.child hi) (by simp [hk])
    · rw [if_neg (by simp [hk]), if_pos hk, plainTexts_singleton]
  | figure index media => exact absurd fits.1 (ne_mediaSingle h)

/-! ## Nodes -/

def Unmarked (memory : Memory) : Prop :=
  memory.skipped = none

theorem takeSkip_of_unmarked {memory : Memory} (h : Unmarked memory) (place : Place) :
    memory.takeSkip place = (false, memory) :=
  if_neg (by rw [h]; exact nofun)

theorem unmarked_takeSkip (place : Place) : Holds Unmarked (takeSkip place) (· = false) := by
  intro memory hm
  have ht := takeSkip_of_unmarked hm place
  exact ⟨congrArg Prod.fst ht, (congrArg (fun r : Bool × Memory => r.2.skipped) ht).trans hm⟩

theorem unmarked_of_reads {α : Type} {step : RenderM α} {anchors : List String} {mentions : List (String × String)}
    {Q : α → Prop} (h : Reads step anchors mentions) (hQ : ∀ memory, Q (step.run memory).1) :
    Holds Unmarked step Q := by
  intro memory hm
  refine ⟨hQ memory, ?_⟩
  obtain ⟨value, notices, hstep⟩ := h
  rw [hstep]
  exact hm

/-- What is visible of the nodes is visible in the text. -/
def ShowsAll (nodes : List Node) (text : String) : Prop :=
  Shows (Node.plainTexts nodes) text

theorem showsAll_carries : Carries ShowsAll where
  nil := .refl _
  append h h' := by
    unfold ShowsAll
    rw [plainTexts_append]
    exact h.append h'
  of_shows h hs := h.trans hs

section
variable {setting : Setting}

theorem shows_leaf (ht : setting.options.trackerUrl = none) {scope : Scope} {indent : String} {node : Node}
    {leaf : Leaf} (h : wellShaped setting.macros node = true)
    (hr : Rule.ofNode setting scope indent node = .leaf leaf) (memory : Memory) :
    Shows node.plainText (String.join ((renderLeaf setting scope node leaf).run memory).1) := by
  have bare (hb : isBare setting.macros node = true) (hk : node.kind ≠ .text) (s : String) :
      Shows node.plainText s := by
    rw [plainText_of_ne_text h hk, content_of_bare h hb]
    exact .empty s
  unfold Rule.ofNode at hr
  split at hr
  case h_3 =>
    cases hr
    exact shows_code node
  case h_11 hk => exact absurd hk (ne_mediaSingle h)
  case h_18 hk | h_19 hk =>
    rcases ofMacro_cases hr with ⟨handler, hf, -⟩ | ⟨-, hr⟩
    · exact bare (by rw [isBare, hk, hf]; rfl) (by simp [hk]) _
    · cases hr
  case h_20 hk =>
    cases hr
    have hs := shows_textMarkup ht memory.anchors scope.inCell node
    rw [plainText_of_bare h (by rw [isBare, hk])]
    rwa [← run_renderText, ← join_singleton ((renderText _ _ _).run memory).1] at hs
  all_goals
    first
      | cases hr; done
      | rename_i hk; exact bare (by rw [isBare, hk]) (by simp [hk]) _

/-- **Every node shows its text.** -/
theorem node_shows (ht : setting.options.trackerUrl = none) (node : Node)
    (h : node.everywhere (wellShaped setting.macros) = true) : NodeCarries .marked Unmarked setting ShowsAll node := by
  refine Node.everywhere_induction (fun node hnode shaped ih => ?_) node h
  intro scope place indent
  rw [visit_def]
  refine .bind (unmarked_takeSkip place) fun skipped hs => ?_
  subst hs
  show Holds Unmarked (visitBy .marked setting scope place indent node _) _
  generalize hrule : Rule.ofNode setting scope indent node = rule
  by_cases hl : ∃ leaf, rule = .leaf leaf
  · obtain ⟨leaf, rfl⟩ := hl
    refine unmarked_of_reads (reads_renderLeaf setting scope node leaf) fun memory => ?_
    rw [ShowsAll, plainTexts_singleton]
    exact shows_leaf ht hnode hrule memory
  have hleaf : ∀ leaf, rule ≠ .leaf leaf := fun leaf he => hl ⟨leaf, he⟩
  have hfigure : ∀ index media, rule ≠ .figure index media := by
    rintro index media rfl
    exact ne_mediaSingle hnode (ofNode_fits hrule).1
  have hnotices : ∀ notices, Holds Unmarked (noteAll notices) fun _ => True := fun notices =>
    unmarked_of_reads (reads_noteAll notices) fun _ => trivial
  have hby := visitBy_carries showsAll_carries hrule hleaf hfigure hnotices ih place
  refine hby.mono fun fragments hf => ?_
  rwa [ShowsAll, plainTexts_singleton, plainText_visits hrule hleaf hnode shaped]

end

/-- **No text is lost.** What is visible in the plain text of a well-shaped page stands in its AsciiDoc
text, in the same order. -/
theorem visible_plainText_sublist (doc : Node) (title : Option String) (options : Options)
    (hshape : doc.everywhere (wellShaped .standard) = true) (htracker : options.trackerUrl = none) :
    (Text.visible doc.plainText.toList).Sublist (toAsciidoc doc title options).toList := by
  have hdoc : NodeCarries .marked Unmarked { options } ShowsAll doc := node_shows htracker doc hshape
  obtain ⟨hbody, -⟩ := hdoc {} [] "" {} rfl
  unfold ShowsAll at hbody
  rw [plainTexts_singleton] at hbody
  have hrun : toAsciidoc doc title options =
      header title options.imagesDir ++ String.join ((visit .marked { options } {} [] "" doc).run {}).1 := by
    rw [toAsciidoc, renderDocument, Walk.within_render]
    rfl
  rw [hrun]
  exact List.Sublist.trans (hbody.after _) (Text.visible_sublist _)

/-- A strong text in a list in a cell, with a bar in it. -/
theorem visible_plainText_sublist_cell :
    let text : Node := { type := "text", text := some "a | b", marks := [{ type := "strong" }] }
    let list : Node := { type := "bulletList", content := [{ type := "listItem", content := [text] }] }
    let row : Node := { type := "tableRow", content := [{ type := "tableCell", content := [list] }] }
    let doc : Node := { type := "doc", content := [{ type := "table", content := [row] }] }
    doc.everywhere (wellShaped .standard) = true ∧ ({} : Options).trackerUrl = none ∧
      "a|b".toList.Sublist (toAsciidoc doc none {}).toList := by
  intro text list row doc
  have hs : doc.everywhere (wellShaped .standard) = true := by decide
  have ht : ({} : Options).trackerUrl = none := rfl
  have hv : Text.visible doc.plainText.toList = "a|b".toList := by decide
  have h := visible_plainText_sublist doc none {} hs ht
  rw [hv] at h
  exact ⟨hs, ht, h⟩

end WikiPress.Render
