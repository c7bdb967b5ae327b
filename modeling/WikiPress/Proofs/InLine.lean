import WikiPress.Proofs.OneLine
import WikiPress.Proofs.Quiet
import WikiPress.Proofs.Resolution

/-!
# Nodes in one line

Texts, mentions, cards, emoji, images in a line and macros bring no line end of their own. What is taken over from
them may hold one, and so do hard breaks and all blocks.
-/

namespace WikiPress

open Text (OneLine)

theorem Text.OneLine.replaceChar {c : Char} {by' : List Char} (hb : '\n' ∉ by') {cs : List Char} (h : '\n' ∉ cs) :
    '\n' ∉ Text.replaceChar c by' cs := by
  intro hm
  obtain ⟨d, hd, hm⟩ := List.mem_flatMap.1 hm
  by_cases hc : d = c
  · rw [if_pos hc] at hm
    exact hb hm
  · rw [if_neg hc, List.mem_singleton] at hm
    exact h (hm ▸ hd)

/-! ## Links in one line -/

namespace Link

/-- The URL of a link takes one line, and so does the path to a page that it names. -/
def inLine (options : Options) (href : String) : Bool :=
  decide (OneLine href) && (pagePath? options (Text.splitFirst '#' href).1).all fun path => decide (OneLine path)

def Target.InLine (target : Target) : Prop :=
  ∀ text, OneLine text → OneLine (target.markup text)

section
variable {options : Options} {anchors : List String} {href : String}

theorem oneLine_fragment {url fragment : String} (h : SplitsInto href url (some fragment)) (hl : OneLine href) :
    OneLine fragment := by
  cases h with
  | atMark _ heq =>
    rw [heq] at hl
    exact (Text.oneLine_append.1 hl).2

theorem oneLine_key {text before key rest : List Char} (h : HasKey text before key rest) (hl : '\n' ∉ text) :
    '\n' ∉ key := by
  intro hm
  rw [h.text_eq] at hl
  simp [hm] at hl

theorem classify_inLine (h : inLine options href = true) : (classify options anchors href).InLine := by
  obtain ⟨hl, hpath⟩ := Bool.and_eq_true_iff.1 h
  have hl := of_decide_eq_true hl
  obtain ⟨target, hresolves⟩ := exists_resolves options anchors href
  rw [hresolves.classify_eq]
  intro text ht
  cases hresolves with
  | anchor ha =>
    have hid := (Text.oneLine_append.1 (ha.1 ▸ hl)).2
    simp +decide [Target.markup, hid, ht]
  | @page url path fragment _ hsplit _ hpage =>
    have hp : OneLine path := by
      rw [splitFirst_eq_iff.2 hsplit, pagePath?_eq_some_iff.2 hpage] at hpath
      exact of_decide_eq_true hpath
    cases fragment with
    | none => simp +decide [Target.markup, hp, ht]
    | some fragment =>
      have hf := oneLine_fragment hsplit hl
      simp +decide [Target.markup, hp, hf, ht]
  | @issue url key fragment _ _ _ hissue =>
    obtain ⟨tracker, _, _, _, before, rest, hkey, _, _⟩ := hissue
    have hk : OneLine key := oneLine_key hkey hl
    simp +decide [Target.markup, hk]
  | unmapped | external =>
    simp +decide [Target.markup, hl, ht]

theorem mem_of_innerOf? {wrapper c : Char} {cs inner : List Char} (h : innerOf? wrapper cs = some inner)
    (hc : c ∈ inner) : c ∈ cs := by
  unfold innerOf? at h
  split at h
  · cases h
  · simp only at h
    split at h
    · cases h
      exact List.mem_cons_of_mem _ ((List.dropLast_sublist _).subset hc)
    · cases h

theorem oneLine_wrapper {text : String} {wrapper : Char} {inner : String} (h : wrapper? text = some (wrapper, inner))
    (ht : OneLine text) : OneLine wrapper.toString ∧ OneLine inner := by
  have hinner {c : Char} {cs : List Char} (hi : innerOf? c text.toList = some cs) : OneLine (.ofList cs) :=
    Text.oneLine_ofList.2 fun hm => ht (mem_of_innerOf? hi hm)
  unfold wrapper? at h
  split at h
  · rename_i cs hi
    cases h
    exact ⟨by decide, hinner hi⟩
  · obtain ⟨cs, hi, he⟩ := Option.map_eq_some_iff.1 h
    cases he
    exact ⟨by decide, hinner hi⟩

theorem oneLine_markup {target : Target} (h : target.InLine) {text : String} (ht : OneLine text) :
    OneLine (markup target text) := by
  unfold markup
  split
  · exact h text ht
  · exact h text ht
  · rename_i wrapper inner _ hw
    obtain ⟨hwrapper, hinner⟩ := oneLine_wrapper hw ht
    exact (hwrapper.append (h inner hinner)).append hwrapper

end

end Link

/-! ## Nodes in one line -/

namespace Render

theorem oneLine_escapeInCell {s : String} (h : OneLine s) (inCell : Bool) : OneLine (escapeInCell inCell s) := by
  unfold escapeInCell
  split
  · rw [OneLine, Text.toList_escapeChar]
    exact OneLine.replaceChar (by decide) h
  · exact h

theorem oneLine_wrapped (kind : Mark.Kind) {text : String} (h : OneLine text) : OneLine (wrapped kind text) := by
  cases kind with
  | link | other => exact h
  | _ => exact (OneLine.append (by decide) h).append (by decide)

theorem oneLine_formatted (marks : List Mark) : ∀ {text : String}, OneLine text → OneLine (formatted marks text) := by
  induction marks with
  | nil => exact fun h => h
  | cons mark marks ih => exact fun h => ih (oneLine_wrapped mark.kind h)

/-- A node is in line when nothing that is taken over from it has a line end, and it is no hard break and no block. -/
def isInLine (setting : Setting) (node : Node) : Bool :=
  match node.kind with
  | .text => decide (OneLine node.ownText) && (href? node.marks).all (Link.inLine setting.options)
  | .mention => decide (OneLine (mentionedName node)) && decide (OneLine ((node.text? "id").getD ""))
  | .inlineCard =>
    (node.someText? "url").all fun url =>
      Link.inLine setting.options url && decide (OneLine (cardLabel setting.options setting.title? url))
  | .emoji => decide (OneLine (emojiText node))
  | .mediaInline => decide (OneLine (imageInline setting.options node))
  | .blockMacro => (handledMarkup setting .block node).all fun s => decide (OneLine s)
  | .inlineMacro => (handledMarkup setting .inline node).all fun s => decide (OneLine s)
  | .doc | .mediaGroup | .caption | .unknown => true
  | _ => false

def AllOneLine (texts : List String) : Prop :=
  ∀ s ∈ texts, OneLine s

section
variable {setting : Setting} {node : Node}

theorem oneLine_textMarkup {options : Options} (anchors : List String) (inCell : Bool) (h : OneLine node.ownText)
    (hl : (href? node.marks).all (Link.inLine options) = true) :
    OneLine (textMarkup options anchors inCell node) := by
  have hparts : OneLine (Text.trimEnd node.ownText ++ .ofList (Text.blankEnd node.ownText.toList)) := by
    rwa [Text.trimEnd_append_blankEnd]
  obtain ⟨htrim, hblank⟩ := Text.oneLine_append.1 hparts
  have hformatted := oneLine_formatted node.marks htrim
  have hlinked : OneLine (linkedText options anchors node) := by
    unfold linkedText
    simp only
    split
    · exact hformatted
    · rename_i href hhref
      rw [hhref] at hl
      exact Link.oneLine_markup (Link.classify_inLine hl) hformatted
  unfold textMarkup
  simp only
  split
  · exact oneLine_escapeInCell h inCell
  · exact oneLine_escapeInCell (hlinked.append hblank) inCell

theorem oneLine_renderMention (inCell : Bool) (hname : OneLine (mentionedName node))
    (hid : OneLine ((node.text? "id").getD "")) (memory : Memory) :
    OneLine ((renderMention inCell node).run memory).1 := by
  have hshown : OneLine (escapeInCell inCell
      ("@" ++ if mentionedName node = "" then (node.text? "id").getD "" else mentionedName node)) := by
    refine oneLine_escapeInCell (.append (by decide) ?_) inCell
    split
    · exact hid
    · exact hname
  unfold renderMention
  by_cases h : mentionedName node ≠ "" ∧ (node.text? "id").getD "" ≠ ""
  · rw [if_pos h]
    exact hshown
  · rw [if_neg h]
    exact hshown

theorem oneLine_renderCard (inCell : Bool)
    (h : ∀ url ∈ node.someText? "url", Link.inLine setting.options url = true ∧
      OneLine (cardLabel setting.options setting.title? url)) (memory : Memory) :
    OneLine ((renderCard setting.options setting.title? inCell node).run memory).1 := by
  unfold renderCard
  cases hu : node.someText? "url" with
  | none => exact .empty
  | some url =>
    obtain ⟨hurl, hlabel⟩ := h url hu
    exact oneLine_escapeInCell (Link.oneLine_markup (Link.classify_inLine hurl) hlabel) inCell

theorem allOneLine_handled {position : Macro.Position} {leaf : Leaf} {scope : Scope}
    (h : (handledMarkup setting position node).all (fun s => decide (OneLine s)) = true)
    (hr : Rule.ofMacro setting position node = .leaf leaf) (memory : Memory) :
    AllOneLine ((renderLeaf setting scope node leaf).run memory).1 := by
  obtain ⟨handler, hfind, hleaf⟩ | ⟨_, hleaf⟩ := ofMacro_cases hr
  · cases hleaf
    show AllOneLine ((renderMacro position node handler).run memory).1
    rw [run_renderMacro hfind]
    exact fun s hs => of_decide_eq_true (List.all_eq_true.1 h s hs)
  · cases hleaf

theorem allOneLine_leaf {scope : Scope} {indent : String} {leaf : Leaf} (h : isInLine setting node = true)
    (hr : Rule.ofNode setting scope indent node = .leaf leaf) (memory : Memory) :
    AllOneLine ((renderLeaf setting scope node leaf).run memory).1 := by
  have single {s : String} (hs : OneLine s) : AllOneLine [s] := List.forall_mem_singleton.2 hs
  unfold isInLine at h
  unfold Rule.ofNode at hr
  split at hr
  case h_12 hk =>
    rw [hk] at h
    cases hr
    exact single (of_decide_eq_true h)
  case h_18 hk | h_19 hk =>
    rw [hk] at h
    exact allOneLine_handled h hr memory
  case h_20 hk =>
    rw [hk] at h
    cases hr
    obtain ⟨htext, hlink⟩ := Bool.and_eq_true_iff.1 h
    refine single ?_
    show OneLine ((renderText setting.options scope.inCell node).run memory).1
    rw [run_renderText]
    exact oneLine_textMarkup memory.anchors scope.inCell (of_decide_eq_true htext) hlink
  case h_22 hk =>
    rw [hk] at h
    cases hr
    obtain ⟨hname, hid⟩ := Bool.and_eq_true_iff.1 h
    exact single (oneLine_renderMention scope.inCell (of_decide_eq_true hname) (of_decide_eq_true hid) memory)
  case h_23 hk =>
    rw [hk] at h
    cases hr
    refine single (oneLine_renderCard scope.inCell (fun url hurl => ?_) memory)
    rw [Option.mem_def] at hurl
    rw [hurl] at h
    obtain ⟨hlink, hlabel⟩ := Bool.and_eq_true_iff.1 h
    exact ⟨hlink, of_decide_eq_true hlabel⟩
  case h_24 hk =>
    rw [hk] at h
    cases hr
    exact single (of_decide_eq_true h)
  case h_3 hk | h_5 hk | h_10 hk | h_11 hk | h_21 hk =>
    rw [hk] at h
    cases h
  all_goals cases hr

theorem leaf_or_through {scope : Scope} {indent : String} {rule : Rule} (h : isInLine setting node = true)
    (hr : Rule.ofNode setting scope indent node = rule) :
    (∃ leaf, rule = .leaf leaf) ∨ ∃ margin notices, rule = .through margin notices := by
  have handled {position : Macro.Position} (hm : Rule.ofMacro setting position node = rule) :
      (∃ leaf, rule = .leaf leaf) ∨ ∃ margin notices, rule = .through margin notices := by
    obtain ⟨_, _, hleaf⟩ | ⟨_, hthrough⟩ := ofMacro_cases hm
    · exact .inl ⟨_, hleaf⟩
    · exact .inr ⟨_, _, hthrough⟩
  unfold isInLine at h
  unfold Rule.ofNode at hr
  split at h
  case h_8 hk | h_9 hk | h_10 hk | h_11 hk =>
    rw [hk] at hr
    exact .inr ⟨_, _, hr.symm⟩
  case h_6 hk | h_7 hk =>
    rw [hk] at hr
    exact handled hr
  case h_12 => cases h
  all_goals
    rename_i hk
    rw [hk] at hr
    exact .inl ⟨_, hr.symm⟩

end

/-! ## Everything in line -/

theorem gathers_oneLine : Gathers fun _ texts => AllOneLine texts :=
  ⟨nofun, fun h h' => List.forall_mem_append.2 ⟨h, h'⟩⟩

def NodeOneLine (setting : Setting) (node : Node) : Prop :=
  ∀ (scope : Scope) (place : Place) (indent : String), Gives (visit .marked setting scope place indent node) AllOneLine

/-- **Nodes in one line.** Where everything is in line, no line end is written in any scope and at any place. -/
theorem node_oneLine {setting : Setting} (node : Node) (h : node.everywhere (isInLine setting) = true) :
    NodeOneLine setting node := by
  refine Node.everywhere_induction (fun node hin _ ih => ?_) node h
  intro scope place indent
  rw [visit_def]
  refine .bind (gives_of_run (Q := fun _ => True) fun _ => trivial) fun skipped _ => ?_
  by_cases hs : skipped
  · rw [if_pos hs]
    exact .pure nofun
  · rw [if_neg hs]
    generalize hrule : Rule.ofNode setting scope indent node = rule
    obtain ⟨leaf, rfl⟩ | ⟨margin, notices, rfl⟩ := leaf_or_through hin hrule
    · exact gives_of_run (allOneLine_leaf hin hrule)
    · refine .bind (gives_of_run (Q := fun _ => True) fun _ => trivial) fun _ _ => ?_
      exact visitAll_holds gathers_oneLine fun inner hi i => ih inner (.child hi) scope (i :: place) margin

theorem oneLine_content {setting : Setting} {nodes : List Node}
    (h : ∀ inner ∈ nodes, inner.everywhere (isInLine setting) = true) (scope : Scope) (place : Place)
    (memory : Memory) : OneLine (String.join ((visitAll .marked setting scope place "" 0 nodes).run memory).1) := by
  have hall := visitAll_holds (P := fun _ => True) gathers_oneLine
    fun inner hi i => node_oneLine inner (h inner hi) scope (i :: place) ""
  exact .join (hall memory trivial).1

end Render

end WikiPress
