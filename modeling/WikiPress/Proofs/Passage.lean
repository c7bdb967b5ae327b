import WikiPress.Proofs.PlainText
import WikiPress.Proofs.Spots

/-!
# Passages

Rendering passes through a complete document from its first spot to its last. What holds of each step and of one
step after another holds of the whole passage, spot by spot. Unlike a judgement, a passage knows the places.
-/

namespace WikiPress.Render

/-! ## Complete documents -/

/-- Nothing that stands in the node is passed over, unless it is plain text in code. -/
def isComplete (macros : Macro.Registry) (node : Node) : Bool :=
  node.kind ≠ .mediaSingle && node.content.all (fun inner => mayHold node.kind inner.kind) &&
    (!isBare macros node || node.content.isEmpty) &&
    (node.kind ≠ .codeBlock || node.content.all fun inner => inner.kind = .text && inner.marks.isEmpty)

structure Complete (macros : Macro.Registry) (node : Node) : Prop where
  ne_figure : node.kind ≠ .mediaSingle
  holds : ∀ inner ∈ node.content, mayHold node.kind inner.kind = true
  bare : isBare macros node = true → node.content = []
  code : node.kind = .codeBlock → ∀ inner ∈ node.content, inner.kind = .text ∧ inner.marks = []

theorem complete_of_isComplete {macros : Macro.Registry} {node : Node} (h : isComplete macros node = true) :
    Complete macros node := by
  simp only [isComplete, Bool.and_eq_true, Bool.or_eq_true, decide_eq_true_eq, List.all_eq_true,
    Bool.not_eq_true', List.isEmpty_iff] at h
  obtain ⟨⟨⟨hf, hh⟩, hb⟩, hc⟩ := h
  refine ⟨hf, hh, fun hbare => hb.resolve_left (by simp [hbare]), fun hk => hc.resolve_left (by simp [hk])⟩

/-- Nodes that are nothing to the memory where no rule of their own is applied to them. -/
def IsSilent (node : Node) : Prop :=
  node.kind ≠ .inlineMacro ∧ node.kind ≠ .mention ∧ (node.kind = .text → node.marks = [])

theorem content_of_leaf {setting : Setting} {scope : Scope} {indent : String} {node : Node} {leaf : Leaf}
    (hc : Complete setting.macros node) (hr : Rule.ofNode setting scope indent node = .leaf leaf) :
    ∀ inner ∈ node.content, inner.kind = .text ∧ inner.marks = [] := by
  have bare (hb : isBare setting.macros node = true) : ∀ inner ∈ node.content, inner.kind = .text ∧ inner.marks = [] := by
    rw [hc.bare hb]
    exact fun inner hi => nomatch hi
  unfold Rule.ofNode at hr
  split at hr
  case h_3 hk => exact hc.code hk
  case h_11 hk => exact absurd hk hc.ne_figure
  case h_18 hk | h_19 hk =>
    rcases ofMacro_cases hr with ⟨handler, hf, -⟩ | ⟨-, hr⟩
    · exact bare (by rw [isBare, hk, hf]; rfl)
    · cases hr
  all_goals
    first
      | cases hr; done
      | rename_i hk; exact bare (by rw [isBare, hk])

/-! ## Entered nodes -/

section
variable {captions : Captions} {setting : Setting} {scope : Scope} {place : Place} {indent : String} {node : Node}
  {memory after : Memory}

theorem run_visit_entered (h : (captions.take place).run memory = (false, after)) :
    (visit captions setting scope place indent node).run memory =
      (visitBy captions setting scope place indent node (Rule.ofNode setting scope indent node)).run after := by
  rw [visit_def]
  exact run_bind h

theorem run_visit_left (h : (captions.take place).run memory = (true, after)) :
    (visit captions setting scope place indent node).run memory = ([], after) := by
  rw [visit_def]
  exact run_bind h

end

/-! ## Passages -/

/-- What is shown of two renderings that differ in the treatment of captions, along the spots that they pass. -/
structure Passage (setting : Setting) where
  first : Captions
  second : Captions
  rel : {α : Type} → RenderM α → RenderM α → List Spot → Prop
  pure : ∀ {α : Type} (a : α), rel (pure a) (pure a) []
  bind : ∀ {α β : Type} {x y : RenderM α} {f g : α → RenderM β} {v w : List Spot},
    rel x y v → (∀ a, rel (f a) (g a) w) → rel (x >>= f) (y >>= g) (v ++ w)
  notices : ∀ notices : List Notice, rel (noteAll notices) (noteAll notices) []
  silent : ∀ (place : Place) {node : Node}, IsSilent node → rel (Pure.pure ()) (Pure.pure ()) [(place, node)]
  leaf : ∀ {scope : Scope} {indent : String} {node : Node} {leaf : Leaf} (place : Place),
    Rule.ofNode setting scope indent node = .leaf leaf →
    rel (visit first setting scope place indent node) (visit second setting scope place indent node) [(place, node)]
  entered : ∀ {scope : Scope} {place : Place} {indent : String} {node : Node} {rule : Rule} {v : List Spot},
    Rule.ofNode setting scope indent node = rule → (∀ leaf, rule ≠ .leaf leaf) →
    rel (visitBy first setting scope place indent node rule) (visitBy second setting scope place indent node rule) v →
    rel (visit first setting scope place indent node) (visit second setting scope place indent node)
      ((place, node) :: v)

namespace Passage

variable {setting : Setting} (P : Passage setting)

section
variable {α β : Type} {x y : RenderM α} {v w : List Spot}

theorem map (h : P.rel x y v) (f : α → β) : P.rel (do return f (← x)) (do return f (← y)) v := by
  have := P.bind h fun a => P.pure (f a)
  rwa [List.append_nil] at this

theorem after_silent (place : Place) {node : Node} (hs : IsSilent node) (h : P.rel x y v) :
    P.rel x y ((place, node) :: v) := by
  have := P.bind (P.silent place hs) fun _ => h
  simp only [pure_bind] at this
  exact this

theorem before_silent (h : P.rel x y v) (hw : ∀ spot ∈ w, IsSilent spot.2) : P.rel x y (v ++ w) := by
  induction w generalizing v with
  | nil => rwa [List.append_nil]
  | cons spot w ih =>
    have := P.bind h fun a => P.map (P.silent spot.1 (hw spot (List.mem_cons_self ..))) fun _ => a
    simp only [pure_bind, bind_pure] at this
    rw [List.append_cons]
    exact ih this fun spot' hs => hw spot' (List.mem_cons_of_mem _ hs)

end

theorem silent_of_plain {macros : Macro.Registry} : ∀ (nodes : List Node) (place : Place) (i : Nat),
    Node.everywhereIn (isComplete macros) nodes = true → (∀ node ∈ nodes, node.kind = .text ∧ node.marks = []) →
    ∀ spot ∈ spotsAll place i nodes, IsSilent spot.2
  | [], _, _, _, _ => fun _ hs => absurd hs List.not_mem_nil
  | node :: nodes, place, i, h, hplain => by
    obtain ⟨hnode, hnodes⟩ := Bool.and_eq_true_iff.1 h
    obtain ⟨hk, hm⟩ := hplain node (List.mem_cons_self ..)
    have hbare : isBare macros node = true := by rw [isBare, hk]
    have hcontent := (complete_of_isComplete ((Node.everywhere_iff _ node).1 hnode).1).bare hbare
    intro spot hs
    rw [spotsAll, spots_def, hcontent] at hs
    rcases List.mem_cons.1 hs with rfl | hs
    · exact ⟨by simp [hk], by simp [hk], fun _ => hm⟩
    · exact silent_of_plain nodes place (i + 1) hnodes (fun n hn => hplain n (List.mem_cons_of_mem _ hn)) spot hs

/-! ## Whole documents -/

mutual

/-- **Through a document.** Rendering passes the spots of a complete node. -/
theorem visit_passes : ∀ (node : Node), node.everywhere (isComplete setting.macros) = true →
    ∀ (scope : Scope) (place : Place) (indent : String),
    P.rel (visit P.first setting scope place indent node) (visit P.second setting scope place indent node)
      (spots place node)
  | ⟨type, attrs, content, marks, text⟩, h, scope, place, indent => by
    obtain ⟨hnode, hcontent⟩ := Bool.and_eq_true_iff.1 h
    have hc := complete_of_isComplete hnode
    have kinds {kind : Node.Kind} (hk : Node.Kind.ofType type = kind) :
        ∀ inner ∈ content, mayHold kind inner.kind = true := hk ▸ hc.holds
    rw [spots]
    cases hrule : Rule.ofNode setting scope indent ⟨type, attrs, content, marks, text⟩ with
    | leaf leaf =>
      -- Below a leaf there is at most the text of code, which is not visited.
      exact P.before_silent (P.leaf place hrule) (silent_of_plain content place 0 hcontent (content_of_leaf hc hrule))
    | wrap markup =>
      refine P.entered hrule nofun ?_
      exact P.map (visitAll_passes content hcontent scope place "" 0) _
    | through margin notices =>
      refine P.entered hrule nofun ?_
      exact P.bind (P.notices notices) fun _ => visitAll_passes content hcontent scope place margin 0
    | table =>
      refine P.entered hrule nofun (P.map (visitRows_passes content hcontent ?_ scope place 0) _)
      exact fun row hr => of_decide_eq_true (kinds (ofNode_fits hrule) row hr)
    | row =>
      refine P.entered hrule nofun (P.map (visitCells_passes content hcontent ?_ scope place 0) _)
      exact kinds (ofNode_fits hrule)
    | cell =>
      refine P.entered hrule nofun ?_
      exact P.map (visitParts_passes content hcontent scope.cell place 0) _
    | list bulleted =>
      refine P.entered hrule nofun (P.map (visitItems_passes content hcontent ?_ (scope.inList bulleted) place indent 0) _)
      intro item hi
      rcases ofNode_fits hrule with hk | hk <;> exact of_decide_eq_true (kinds hk item hi)
    | item =>
      refine P.entered hrule nofun ?_
      exact P.map (visitItemParts_passes content hcontent scope place indent false 0) _
    | tasks =>
      refine P.entered hrule nofun (P.map (visitTasks_passes content hcontent ?_ (scope.inList true) place indent 0) _)
      exact kinds (ofNode_fits hrule)
    | figure index media => exact absurd (ofNode_fits hrule).1 hc.ne_figure

theorem visitAll_passes : ∀ (nodes : List Node), Node.everywhereIn (isComplete setting.macros) nodes = true →
    ∀ (scope : Scope) (place : Place) (indent : String) (i : Nat),
    P.rel (visitAll P.first setting scope place indent i nodes) (visitAll P.second setting scope place indent i nodes)
      (spotsAll place i nodes)
  | [], _, _, _, _, _ => P.pure []
  | node :: nodes, h, scope, place, indent, i => by
    obtain ⟨hnode, hnodes⟩ := Bool.and_eq_true_iff.1 h
    refine P.bind (visit_passes node hnode scope (i :: place) indent) fun first => ?_
    exact P.map (visitAll_passes nodes hnodes scope place indent (i + 1)) _

theorem visitContent_passes : ∀ (node : Node), node.everywhere (isComplete setting.macros) = true → IsSilent node →
    ∀ (scope : Scope) (place : Place),
    P.rel (visitContent P.first setting scope place node) (visitContent P.second setting scope place node)
      (spots place node)
  | ⟨_, _, content, _, _⟩, h, hs, scope, place => by
    obtain ⟨-, hcontent⟩ := Bool.and_eq_true_iff.1 h
    exact P.after_silent place hs (P.map (visitAll_passes content hcontent scope place "" 0) _)

theorem visitItems_passes : ∀ (nodes : List Node), Node.everywhereIn (isComplete setting.macros) nodes = true →
    (∀ node ∈ nodes, node.kind = .listItem) → ∀ (scope : Scope) (place : Place) (indent : String) (i : Nat),
    P.rel (visitItems P.first setting scope place indent i nodes)
      (visitItems P.second setting scope place indent i nodes) (spotsAll place i nodes)
  | [], _, _, _, _, _, _ => P.pure []
  | node :: nodes, h, hk, scope, place, indent, i => by
    obtain ⟨hnode, hnodes⟩ := Bool.and_eq_true_iff.1 h
    have hitem := hk node (List.mem_cons_self ..)
    simp only [visitItems, if_pos hitem]
    refine P.bind (visitItem_passes node hnode (by simp [IsSilent, hitem]) scope (i :: place) indent) fun item => ?_
    exact P.map (visitItems_passes nodes hnodes (fun n hn => hk n (List.mem_cons_of_mem _ hn)) scope place indent
      (i + 1)) _

theorem visitItem_passes : ∀ (node : Node), node.everywhere (isComplete setting.macros) = true → IsSilent node →
    ∀ (scope : Scope) (place : Place) (indent : String),
    P.rel (visitItem P.first setting scope place indent node) (visitItem P.second setting scope place indent node)
      (spots place node)
  | ⟨_, _, content, _, _⟩, h, hs, scope, place, indent => by
    obtain ⟨-, hcontent⟩ := Bool.and_eq_true_iff.1 h
    exact P.after_silent place hs (P.map (visitItemParts_passes content hcontent scope place indent false 0) _)

theorem visitItemParts_passes : ∀ (nodes : List Node), Node.everywhereIn (isComplete setting.macros) nodes = true →
    ∀ (scope : Scope) (place : Place) (indent : String) (started : Bool) (i : Nat),
    P.rel (visitItemParts P.first setting scope place indent started i nodes)
      (visitItemParts P.second setting scope place indent started i nodes) (spotsAll place i nodes)
  | [], _, _, _, _, _, _ => P.pure []
  | node :: nodes, h, scope, place, indent, started, i => by
    obtain ⟨hnode, hnodes⟩ := Bool.and_eq_true_iff.1 h
    refine P.bind (visit_passes node hnode scope (i :: place) (partIndent indent started node.kind)) fun part => ?_
    exact P.map (visitItemParts_passes nodes hnodes scope place indent _ (i + 1)) _

theorem visitTasks_passes : ∀ (nodes : List Node), Node.everywhereIn (isComplete setting.macros) nodes = true →
    (∀ node ∈ nodes, mayHold .taskList node.kind = true) →
    ∀ (scope : Scope) (place : Place) (indent : String) (i : Nat),
    P.rel (visitTasks P.first setting scope place indent i nodes)
      (visitTasks P.second setting scope place indent i nodes) (spotsAll place i nodes)
  | [], _, _, _, _, _, _ => P.pure []
  | node :: nodes, h, hk, scope, place, indent, i => by
    obtain ⟨hnode, hnodes⟩ := Bool.and_eq_true_iff.1 h
    have rest := visitTasks_passes nodes hnodes (fun n hn => hk n (List.mem_cons_of_mem _ hn)) scope place indent (i + 1)
    have htask : node.kind = .taskItem ∨ node.kind = .taskList := by
      simpa [mayHold] using hk node (List.mem_cons_self ..)
    unfold visitTasks
    by_cases hitem : node.kind = .taskItem
    · simp only [if_pos hitem]
      refine P.bind (visitContent_passes node hnode (by simp [IsSilent, hitem]) scope (i :: place)) fun text => ?_
      exact P.map rest _
    · simp only [if_neg hitem, if_pos (htask.resolve_left hitem)]
      refine P.bind (visit_passes node hnode scope (i :: place) (indent ++ "  ")) fun nested => ?_
      exact P.map rest _

theorem visitRows_passes : ∀ (nodes : List Node), Node.everywhereIn (isComplete setting.macros) nodes = true →
    (∀ node ∈ nodes, node.kind = .tableRow) → ∀ (scope : Scope) (place : Place) (i : Nat),
    P.rel (visitRows P.first setting scope place i nodes) (visitRows P.second setting scope place i nodes)
      (spotsAll place i nodes)
  | [], _, _, _, _, _ => P.pure []
  | node :: nodes, h, hk, scope, place, i => by
    obtain ⟨hnode, hnodes⟩ := Bool.and_eq_true_iff.1 h
    refine P.bind (visitRow_passes node hnode (hk node (List.mem_cons_self ..)) scope (i :: place)) fun row => ?_
    exact P.map (visitRows_passes nodes hnodes (fun n hn => hk n (List.mem_cons_of_mem _ hn)) scope place (i + 1)) _

theorem visitRow_passes : ∀ (node : Node), node.everywhere (isComplete setting.macros) = true →
    node.kind = .tableRow → ∀ (scope : Scope) (place : Place),
    P.rel (visitRow P.first setting scope place node) (visitRow P.second setting scope place node) (spots place node)
  | ⟨type, _, content, _, _⟩, h, hk, scope, place => by
    obtain ⟨hnode, hcontent⟩ := Bool.and_eq_true_iff.1 h
    have hcells : ∀ cell ∈ content, mayHold .tableRow cell.kind = true := hk ▸ (complete_of_isComplete hnode).holds
    refine P.after_silent place (by simp [IsSilent, hk]) ?_
    exact P.map (visitCells_passes content hcontent hcells scope place 0) _

theorem visitCells_passes : ∀ (nodes : List Node), Node.everywhereIn (isComplete setting.macros) nodes = true →
    (∀ node ∈ nodes, mayHold .tableRow node.kind = true) → ∀ (scope : Scope) (place : Place) (i : Nat),
    P.rel (visitCells P.first setting scope place i nodes) (visitCells P.second setting scope place i nodes)
      (spotsAll place i nodes)
  | [], _, _, _, _, _ => P.pure []
  | node :: nodes, h, hk, scope, place, i => by
    obtain ⟨hnode, hnodes⟩ := Bool.and_eq_true_iff.1 h
    have hcell : node.kind = .tableCell ∨ node.kind = .tableHeader := by
      simpa [mayHold] using hk node (List.mem_cons_self ..)
    have hs : IsSilent node := by rcases hcell with hc | hc <;> simp [IsSilent, hc]
    refine P.bind (visitCell_passes node hnode hs scope (i :: place)) fun cell => ?_
    exact P.map (visitCells_passes nodes hnodes (fun n hn => hk n (List.mem_cons_of_mem _ hn)) scope place (i + 1)) _

theorem visitCell_passes : ∀ (node : Node), node.everywhere (isComplete setting.macros) = true → IsSilent node →
    ∀ (scope : Scope) (place : Place),
    P.rel (visitCell P.first setting scope place node) (visitCell P.second setting scope place node)
      (spots place node)
  | ⟨_, _, content, _, _⟩, h, hs, scope, place => by
    obtain ⟨-, hcontent⟩ := Bool.and_eq_true_iff.1 h
    exact P.after_silent place hs (P.map (visitParts_passes content hcontent scope.cell place 0) _)

theorem visitParts_passes : ∀ (nodes : List Node), Node.everywhereIn (isComplete setting.macros) nodes = true →
    ∀ (scope : Scope) (place : Place) (i : Nat),
    P.rel (visitParts P.first setting scope place i nodes) (visitParts P.second setting scope place i nodes)
      (spotsAll place i nodes)
  | [], _, _, _, _ => P.pure []
  | node :: nodes, h, scope, place, i => by
    obtain ⟨hnode, hnodes⟩ := Bool.and_eq_true_iff.1 h
    refine P.bind (visit_passes node hnode scope (i :: place) "") fun part => ?_
    exact P.map (visitParts_passes nodes hnodes scope place (i + 1)) _

end

end Passage

end WikiPress.Render
