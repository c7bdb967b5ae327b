import WikiPress.Proofs.Bars
import WikiPress.Proofs.Judgement
import WikiPress.Proofs.Memory

/-!
# Quiet nodes

What is rendered in a cell has no open bars of its own: texts are escaped there and markup has none. What
is taken over from a node as it is may have some, and so do the rows of a table.
-/

namespace WikiPress.Render

/-! ## What is taken over -/

/-- The markup that a macro with a handler gives. -/
def handledMarkup (setting : Setting) (position : Macro.Position) (node : Node) : List String :=
  match setting.macros.find? position (Macro.keyOf node) with
  | some handler =>
    match handler.render node with
    | .ok result => result.fragments
    | .error failure => [Macro.failureComment (Macro.keyOf node) failure]
  | none => []

/-- What rendering takes over from a node as it is, also in a cell. -/
def verbatim (setting : Setting) (node : Node) : List String :=
  match node.kind with
  | .codeBlock => codeMarkup node
  | .media | .mediaInline => mediaFileName setting.options node :: (node.someText? "alt").toList
  | .emoji => [emojiText node]
  | .blockMacro => handledMarkup setting .block node
  | .inlineMacro => handledMarkup setting .inline node
  | _ => []

/-- A node is quiet when it is no part of a table and has no open bar in what is taken over from it. -/
def isQuiet (setting : Setting) (node : Node) : Bool :=
  node.kind ≠ .table && node.kind ≠ .tableRow && (verbatim setting node).all fun s => openBars s = 0

instance (s : String) : Decidable (Closed s) :=
  inferInstanceAs (Decidable (openBars s = 0))

def AllClosed (texts : List String) : Prop :=
  ∀ s ∈ texts, Closed s

namespace AllClosed

variable {xs ys : List String} {s : String}

theorem nil : AllClosed [] := nofun

theorem singleton (h : Closed s) : AllClosed [s] :=
  List.forall_mem_singleton.2 h

theorem cons (h : Closed s) (h' : AllClosed xs) : AllClosed (s :: xs) :=
  List.forall_mem_cons.2 ⟨h, h'⟩

theorem append (h : AllClosed xs) (h' : AllClosed ys) : AllClosed (xs ++ ys) :=
  List.forall_mem_append.2 ⟨h, h'⟩

theorem lines (h : AllClosed xs) : Closed (String.intercalate "\n" xs) := by
  have hs := openBars_lines '\n' (by decide) (by decide) xs
  exact hs.trans (openBarsIn_of_closed h)

end AllClosed

section
variable {setting : Setting} {node : Node}

theorem closed_verbatim (h : isQuiet setting node = true) : AllClosed (verbatim setting node) := by
  simp only [isQuiet, Bool.and_eq_true, List.all_eq_true, decide_eq_true_eq] at h
  exact h.2

theorem ne_table (h : isQuiet setting node = true) : node.kind ≠ .table ∧ node.kind ≠ .tableRow := by
  simp only [isQuiet, Bool.and_eq_true, decide_eq_true_eq] at h
  exact h.1

theorem closed_imageBlock (options : Options) {node : Node} {caption : Option String}
    (hname : Closed (mediaFileName options node)) (halt : AllClosed (node.someText? "alt").toList)
    (hcaption : AllClosed caption.toList) : Closed (imageBlock options node caption) := by
  have himage : Closed ("image::" ++ mediaFileName options node ++ "[]\n") :=
    (Closed.append (by decide) hname).append (by decide)
  have htitle : AllClosed (imageTitle? node caption).toList := by
    unfold imageTitle?
    cases hc : (caption.map Text.trim).filter (· != "") with
    | none => exact halt
    | some title =>
      obtain ⟨c, rfl, rfl⟩ := Option.map_eq_some_iff.1 (Option.filter_eq_some_iff.1 hc).1
      exact .singleton (hcaption c (List.mem_singleton_self c)).trim
  unfold imageBlock
  simp only
  cases ht : imageTitle? node caption with
  | none => exact himage
  | some title =>
    rw [ht] at htitle
    simp only
    split
    · exact himage
    · have hclosed := htitle title (List.mem_singleton_self title)
      have hline : Closed ("." ++ title ++ "\n") := (Closed.append (by decide) hclosed).append (by decide)
      exact hline.append himage

theorem closed_imageInline (options : Options) {node : Node} (hname : Closed (mediaFileName options node))
    (halt : AllClosed (node.someText? "alt").toList) : Closed (imageInline options node) := by
  have hshown : Closed (((node.someText? "alt").filter (· != mediaFileName options node)).getD "") := by
    cases hf : (node.someText? "alt").filter (· != mediaFileName options node) with
    | none => exact .empty
    | some alt => exact halt alt (Option.mem_toList.2 (Option.filter_eq_some_iff.1 hf).1)
  exact (((Closed.append (by decide) hname).append (by decide)).append hshown).append (by decide)

theorem allClosed_paragraph {indent text : String} (hi : Closed indent) (ht : Closed text) :
    AllClosed (paragraphMarkup indent text) := by
  unfold paragraphMarkup
  by_cases h : Text.isAllBlank text
  · rw [if_pos h]
    exact .nil
  · rw [if_neg h]
    exact .singleton ((hi.append ht).append (by decide))

theorem closed_repeated (n : Nat) {c : Char} (h : '|' ≠ c) : Closed (repeated n c) := by
  refine .of_not_mem ?_
  rw [repeated, String.toList_ofList]
  exact fun hm => h (List.eq_of_mem_replicate hm)

theorem closed_margin (scope : Scope) {indent : String} (hi : Closed indent) : Closed (margin scope indent) := by
  unfold margin
  split
  · exact .empty
  · exact hi

theorem closed_marker (scope : Scope) : Closed (marker scope) := by
  refine closed_repeated _ ?_
  split <;> decide

theorem closed_heading (level : Nat) {text : String} (ht : Closed text) : Closed (headingMarkup level text) := by
  have hlevel : Closed ("\n" ++ repeated level '=') := .append (by decide) (closed_repeated level (by decide))
  exact ((hlevel.append (by decide)).append ht.trim).append (by decide)

theorem closed_panel (node : Node) {body : String} (h : Closed body) : Closed (panelMarkup node body) := by
  have ha : Closed (admonition node) := by
    unfold admonition
    split <;> decide
  exact (((Closed.append (by decide) ha).append (by decide)).append h.trim).append (by decide)

theorem closed_task (scope : Scope) {indent : String} (node : Node) {text : String} (hi : Closed indent)
    (ht : Closed text) : Closed (taskMarkup scope indent node text) := by
  have hbox : Closed (checkbox node) := by
    unfold checkbox
    split <;> decide
  have hm := (closed_margin scope hi).append (closed_repeated (max 1 scope.listDepth) (c := '*') (by decide))
  exact (((hm.append (by decide)).append hbox).append (by decide)).append ht.trim

theorem allClosed_wrap {scope : Scope} {indent : String} {markup : String → List String}
    (h : Rule.ofNode setting scope indent node = .wrap markup) (hi : Closed indent) {text : String}
    (ht : Closed text) : AllClosed (markup text) := by
  unfold Rule.ofNode at h
  split at h
  case h_1 =>
    cases h
    exact allClosed_paragraph hi ht
  case h_2 =>
    cases h
    exact .singleton (closed_heading _ ht)
  case h_4 =>
    cases h
    exact .singleton (closed_panel node ht)
  case h_17 =>
    cases h
    exact .singleton (closed_task scope node hi ht)
  case h_11 => split at h <;> cases h
  case h_18 | h_19 => rcases ofMacro_cases h with ⟨_, -, hr⟩ | ⟨-, hr⟩ <;> cases hr
  all_goals cases h

theorem allClosed_list (scope : Scope) {items : List String} (h : AllClosed items) :
    AllClosed (listMarkup scope items) := by
  unfold listMarkup
  by_cases he : items.isEmpty = true
  · rw [if_pos he]
    exact .nil
  rw [if_neg he]
  simp only
  split
  · exact .singleton ((Closed.append (by decide) h.lines).append (by decide))
  · exact .singleton (Closed.append (by decide) h.lines)

theorem closed_partIndent {indent : String} (hi : Closed indent) (started : Bool) (kind : Node.Kind) :
    Closed (partIndent indent started kind) := by
  unfold partIndent
  split
  · split
    · exact hi.append (by decide)
    · exact hi
  · exact .empty

theorem allClosed_part (scope : Scope) {indent : String} (started : Bool) (kind : Node.Kind) {text : String}
    (hi : Closed indent) (ht : Closed text) : AllClosed (partLines scope indent started kind text) := by
  have hbare : Closed (bareMarker scope indent) := (closed_margin scope hi).append (closed_marker scope)
  have hset : Closed (indent ++ "  " ++ Text.trimEnd (Text.trimLineStart text)) :=
    (hi.append (by decide)).append ht.trimLineStart.trimEnd
  unfold partLines
  by_cases hp : kind = .paragraph ∧ (!started) = true
  · rw [if_pos hp]
    exact .singleton ((hbare.append (by decide)).append ht.trimEnd)
  rw [if_neg hp]
  by_cases hl : kind.isList = true ∧ (!started) = true
  · rw [if_pos hl]
    exact .singleton ((hbare.append (by decide)).append ht.trimLineStart)
  rw [if_neg hl]
  by_cases hk : kind.isList = true
  · rw [if_pos hk]
    exact .singleton ht.trimLineStart
  rw [if_neg hk]
  simp only
  split
  · exact .nil
  split
  · exact .singleton hset
  · exact .cons hbare (.singleton hset)

theorem allClosed_cellLines (started afterParagraph : Bool) {parts : List (Node.Kind × String)}
    (h : ∀ part ∈ parts, Closed part.2) : AllClosed (cellLines started afterParagraph parts) := by
  induction parts generalizing started afterParagraph with
  | nil => exact .nil
  | cons part parts ih =>
    obtain ⟨kind, text⟩ := part
    have ht : Closed text := h (kind, text) (List.mem_cons_self ..)
    refine .append (.append ?_ ?_) (ih _ _ fun part hp => h part (List.mem_cons_of_mem _ hp))
    · split
      · exact .singleton .empty
      · exact .nil
    · split
      · exact .nil
      · exact .singleton ht.trim

theorem closed_ofParts {parts : List (Node.Kind × String)} (h : ∀ part ∈ parts, Closed part.2) :
    Closed (Cell.ofParts parts).text := by
  simp only [Cell.ofParts]
  split
  · exact (allClosed_cellLines false false h).lines
  · exact .escapeBars _

/-- A cell without a block of lines has no open bars, whatever is in it. -/
theorem closed_ofParts_simple {parts : List (Node.Kind × String)}
    (h : parts.any (fun part => isComplex part.1) = false) : Closed (Cell.ofParts parts).text := by
  simp only [Cell.ofParts, h]
  exact .escapeBars _

/-! ## Nodes in a cell -/

theorem run_renderMacro {position : Macro.Position} {handler : Macro}
    (h : setting.macros.find? position (Macro.keyOf node) = some handler) (memory : Memory) :
    ((renderMacro position node handler).run memory).1 = handledMarkup setting position node := by
  simp only [renderMacro, handledMarkup, h]
  cases handler.render node with
  | ok result => rfl
  | error failure => rfl

theorem closed_renderText (options : Options) (node : Node) (memory : Memory) :
    Closed ((renderText options true node).run memory).1 := by
  rw [run_renderText, textMarkup]
  split
  · exact .escapeInCell _
  · exact .escapeInCell _

theorem closed_renderMention (node : Node) (memory : Memory) : Closed ((renderMention true node).run memory).1 := by
  unfold renderMention
  by_cases h : mentionedName node ≠ "" ∧ (node.text? "id").getD "" ≠ ""
  · rw [if_pos h]
    exact .escapeInCell _
  · rw [if_neg h]
    exact .escapeInCell _

theorem closed_renderCard (options : Options) (title? : String → Option String) (node : Node) (memory : Memory) :
    Closed ((renderCard options title? true node).run memory).1 := by
  unfold renderCard
  cases node.someText? "url" with
  | none => exact .empty
  | some url => exact .escapeInCell _

/-- Texts, mentions and cards are escaped in a cell; of other leaves only what is taken over counts. -/
theorem allClosed_leaf {scope : Scope} {indent : String} {leaf : Leaf} (hcell : scope.inCell = true)
    (hq : isQuiet setting node = true) (hr : Rule.ofNode setting scope indent node = .leaf leaf) (memory : Memory) :
    AllClosed ((renderLeaf setting scope node leaf).run memory).1 := by
  have hv := closed_verbatim hq
  have handled {position : Macro.Position} (hm : Rule.ofMacro setting position node = .leaf leaf)
      (hp : verbatim setting node = handledMarkup setting position node) :
      AllClosed ((renderLeaf setting scope node leaf).run memory).1 := by
    rcases ofMacro_cases hm with ⟨handler, hf, hl⟩ | ⟨-, hl⟩
    · cases hl
      rw [hp, ← run_renderMacro hf memory] at hv
      exact hv
    · cases hl
  have images (hk : verbatim setting node = mediaFileName setting.options node :: (node.someText? "alt").toList) :
      Closed (mediaFileName setting.options node) ∧ AllClosed (node.someText? "alt").toList := by
    rw [hk] at hv
    exact List.forall_mem_cons.1 hv
  unfold Rule.ofNode at hr
  split at hr
  case h_3 hk =>
    cases hr
    rwa [verbatim, hk] at hv
  case h_5 | h_21 =>
    cases hr
    exact .singleton (by decide)
  case h_10 hk =>
    cases hr
    obtain ⟨hname, halt⟩ := images (by rw [verbatim, hk])
    exact .singleton (closed_imageBlock setting.options hname halt .nil)
  case h_11 =>
    split at hr
    · cases hr
      exact .nil
    · cases hr
  case h_12 hk =>
    cases hr
    obtain ⟨hname, halt⟩ := images (by rw [verbatim, hk])
    exact .singleton (closed_imageInline setting.options hname halt)
  case h_18 hk | h_19 hk => exact handled hr (by rw [verbatim, hk])
  case h_20 =>
    cases hr
    rw [renderLeaf, hcell]
    exact .singleton (closed_renderText setting.options node memory)
  case h_22 =>
    cases hr
    rw [renderLeaf, hcell]
    exact .singleton (closed_renderMention node memory)
  case h_23 =>
    cases hr
    rw [renderLeaf, hcell]
    exact .singleton (closed_renderCard setting.options setting.title? node memory)
  case h_24 hk =>
    cases hr
    rwa [verbatim, hk] at hv
  all_goals cases hr

theorem gathers_closed : Gathers fun _ texts => AllClosed texts :=
  ⟨.nil, .append⟩

theorem gathers_closedParts : Gathers fun _ (parts : List (Node.Kind × String)) => ∀ part ∈ parts, Closed part.2 :=
  ⟨nofun, fun h h' => List.forall_mem_append.2 ⟨h, h'⟩⟩

def NodeClosed (setting : Setting) (node : Node) : Prop :=
  ∀ (scope : Scope) (place : Place) (indent : String), scope.inCell = true → Closed indent →
    Gives (visit .marked setting scope place indent node) AllClosed

section
variable {nodes : List Node} (h : ∀ node ∈ nodes, NodeClosed setting node) {scope : Scope}
  (hcell : scope.inCell = true)
include h hcell

theorem all_closed (place : Place) {indent : String} (hi : Closed indent) :
    Gives (visitAll .marked setting scope place indent 0 nodes) AllClosed :=
  visitAll_holds gathers_closed fun node hn i => h node hn scope (i :: place) indent hcell hi

theorem itemParts_closed (place : Place) {indent : String} (hi : Closed indent) :
    Gives (visitItemParts .marked setting scope place indent false 0 nodes) AllClosed := by
  refine visitItemParts_holds gathers_closed fun node hn i started => ?_
  refine (h node hn scope (i :: place) _ hcell (closed_partIndent hi started node.kind)).mono fun fragments hf => ?_
  exact allClosed_part scope started node.kind hi (.join hf)

theorem others_closed (place : Place) (left : Nat → Bool) :
    Gives (visitOthers .marked setting scope place left 0 nodes) AllClosed :=
  visitOthers_holds gathers_closed (fun _ => .nil) (fun node hn i => h node hn scope (i :: place) "" hcell .empty) 0

end

theorem caption_closed {nodes : List Node} (h : ∀ node ∈ nodes, ∀ inner ∈ node.content, NodeClosed setting inner)
    {scope : Scope} (hcell : scope.inCell = true) (place : Place) :
    Gives (visitCaption .marked setting scope place 0 nodes) fun caption =>
      AllClosed (caption.map Prod.snd).toList := by
  refine Holds.mono (visitCaption_holds (Q := Closed) fun node hn i => ?_) fun caption hc => ?_
  · rw [visitContent_def]
    exact .bind (all_closed (h node hn) hcell (i :: place) .empty) fun _ hf => .pure (.join hf)
  · cases caption with
    | none => exact .nil
    | some c => exact .singleton (hc c rfl)

theorem parts_closed {nodes : List Node} (h : ∀ node ∈ nodes, NodeClosed setting node) (scope : Scope) (place : Place) :
    Gives (visitParts .marked setting scope.cell place 0 nodes) fun parts => ∀ part ∈ parts, Closed part.2 :=
  visitParts_holds gathers_closedParts fun node hn i => (h node hn scope.cell (i :: place) "" rfl .empty).mono
    fun _ hf => List.forall_mem_singleton.2 (Closed.join hf)

theorem figure_closed {node media : Node} {index : Nat} (hm : firstMedia? node.content = some (index, media))
    (hquiet : isQuiet setting media = true) (h : ∀ inner, Node.Below inner node → NodeClosed setting inner)
    {scope : Scope} (hcell : scope.inCell = true) (place : Place) (indent : String) :
    Gives (visitBy .marked setting scope place indent node (.figure index media)) AllClosed := by
  have inside : ∀ inner ∈ node.content, NodeClosed setting inner := fun inner hi => h inner (.child hi)
  have deeper : ∀ part ∈ node.content, ∀ inner ∈ part.content, NodeClosed setting inner :=
    fun _ hp inner hi => h inner (.grandchild hi hp)
  have hv := closed_verbatim hquiet
  rw [verbatim, (firstMedia?_getElem? hm).2] at hv
  obtain ⟨hname, halt⟩ := List.forall_mem_cons.1 hv
  refine .bind (caption_closed deeper hcell place) fun caption hc => ?_
  refine .bind (gives_of_run (Q := fun _ => True) fun _ => trivial) fun _ _ => ?_
  refine .bind (others_closed inside hcell place _) fun others ho => .pure ?_
  have himage : Closed ("\n" ++ imageBlock setting.options media (caption.map Prod.snd)) :=
    .append (by decide) (closed_imageBlock setting.options hname halt hc)
  exact .cons himage ho

theorem visitBy_closed {node : Node} (hquiet : isQuiet setting node = true)
    (quiet : ∀ inner, Node.Below inner node → isQuiet setting inner = true)
    (h : ∀ inner, Node.Below inner node → NodeClosed setting inner) {scope : Scope} (hcell : scope.inCell = true)
    (place : Place) {indent : String} (hindent : Closed indent) :
    Gives (visitBy .marked setting scope place indent node (Rule.ofNode setting scope indent node)) AllClosed := by
  have inside : ∀ inner ∈ node.content, NodeClosed setting inner := fun inner hi => h inner (.child hi)
  have deeper : ∀ part ∈ node.content, ∀ inner ∈ part.content, NodeClosed setting inner :=
    fun _ hp inner hi => h inner (.grandchild hi hp)
  generalize hrule : Rule.ofNode setting scope indent node = rule
  have fits := ofNode_fits hrule
  cases rule with
  | leaf leaf => exact gives_of_run (allClosed_leaf hcell hquiet hrule)
  | wrap markup =>
    refine .bind (all_closed inside hcell place .empty) fun fragments hf => .pure ?_
    exact allClosed_wrap hrule hindent (.join hf)
  | through margin notices =>
    refine .bind (gives_of_run (Q := fun _ => True) fun _ => trivial) fun _ _ => ?_
    rcases margin_of_through hrule with rfl | rfl
    · exact all_closed inside hcell place hindent
    · exact all_closed inside hcell place .empty
  | table => exact absurd fits (ne_table hquiet).1
  | row => exact absurd fits (ne_table hquiet).2
  | cell =>
    refine .bind (parts_closed inside scope place) fun parts hp => .pure ?_
    exact .singleton (closed_ofParts hp)
  | list bulleted =>
    have hcell' : (scope.inList bulleted).inCell = true := hcell
    refine .bind (visitItems_holds gathers_closed (fun _ _ _ => .nil) fun item hi _ i => ?_)
      fun items hs => .pure (allClosed_list scope hs)
    rw [visitItem_def]
    refine .bind (itemParts_closed (deeper item hi) hcell' (i :: place) hindent) fun lines hl => .pure ?_
    exact .singleton hl.lines
  | item =>
    refine .bind (itemParts_closed inside hcell place hindent) fun lines hl => .pure ?_
    exact .singleton hl.lines
  | tasks =>
    have hcell' : (scope.inList true).inCell = true := hcell
    refine .bind (visitTasks_holds gathers_closed (fun _ _ _ _ => .nil) (fun task hi _ i => ?_) fun list hi _ i => ?_)
      fun items hs => .pure (allClosed_list scope hs)
    · rw [visitContent_def]
      refine .bind (all_closed (deeper task hi) hcell' (i :: place) .empty) fun fragments hf => .pure ?_
      exact .singleton (closed_task _ task hindent (.join hf))
    · refine (inside list hi _ (i :: place) _ hcell' (hindent.append (by decide))).mono fun fragments hf => ?_
      exact .singleton (Closed.join hf).trimLineStart
  | figure index media =>
    have hmem : media ∈ node.content := List.mem_of_getElem? (firstMedia?_getElem? fits.2).1
    exact figure_closed fits.2 (quiet media (.child hmem)) h hcell place indent

/-- **Quiet nodes bring no open bars.** -/
theorem node_closed (node : Node) (h : node.everywhere (isQuiet setting) = true) : NodeClosed setting node := by
  refine Node.everywhere_induction (fun node hquiet quiet ih => ?_) node h
  intro scope place indent hcell hindent
  rw [visit_def]
  refine .bind (gives_of_run (Q := fun _ => True) fun _ => trivial) fun skipped _ => ?_
  by_cases hs : skipped
  · rw [if_pos hs]
    exact .pure .nil
  · rw [if_neg hs]
    exact visitBy_closed hquiet quiet ih hcell place hindent

end

end WikiPress.Render
