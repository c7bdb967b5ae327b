import WikiPress.Proofs.Caption
import WikiPress.Proofs.Memory
import WikiPress.Proofs.Walk

/-!
# Runs

Whatever is rendered, the memory only grows, and a figure takes its own mark away. So a run of any
length leaves setting and scope as they were and no mark that was not there before.
-/

namespace WikiPress.Render

theorem skipped_eq_none {α : Type} {step : RenderM α} {memory : Memory}
    (h : Adds memory step) (hm : memory.skipped = none) :
    (step.run memory).2.skipped = none := by
  rcases (h memory (.refl memory)).2.skipped with hs | hs
  · rw [hs, hm]
  · exact hs

def NodeGrows (setting : Setting) (node : Node) : Prop :=
  ∀ (m₀ : Memory) (scope : Scope) (place : Place) (indent : String),
    Adds m₀ (visit .marked setting scope place indent node)

section
variable {setting : Setting}

/-! ## Figures -/

section
variable {nodes : List Node} (m₀ : Memory)

theorem others_grow (h : ∀ node ∈ nodes, NodeGrows setting node) (scope : Scope) (place : Place)
    (left : Nat → Bool) (i : Nat) : Adds m₀ (visitOthers .marked setting scope place left i nodes) :=
  visitOthers_holds .trivial (fun _ => trivial) (fun node hn i => h node hn m₀ scope (i :: place) "") i

theorem caption_grows (h : ∀ node ∈ nodes, ∀ inner ∈ node.content, NodeGrows setting inner) (scope : Scope)
    (place : Place) : Adds m₀ (visitCaption .marked setting scope place 0 nodes) := by
  refine Holds.mono (visitCaption_holds (Q := fun _ => True) (fun node hn i => ?_)) fun _ _ => trivial
  rw [visitContent_def]
  have all := visitAll_holds .trivial fun inner hi j => h node hn inner hi m₀ scope (j :: i :: place) ""
  exact .bind all fun _ _ => .pure trivial

end

/-- The marked caption is met among the others, unless the mark was lost before: afterwards no mark is
left. -/
theorem visitOthers_clears {scope : Scope} {place : Place} {left : Nat → Bool} {c : Nat} (hc : left c = false) :
    ∀ {nodes : List Node}, (∀ node ∈ nodes, NodeGrows setting node) → ∀ {i : Nat} {memory : Memory},
      firstCaption? i nodes = some c → memory.skipped = some (c :: place) ∨ memory.skipped = none →
      ((visitOthers .marked setting scope place left i nodes).run memory).2.skipped = none
  | [], _, _, _, hf, _ => nomatch hf
  | node :: nodes, h, i, memory, hf, hm => by
    have hn := h node (List.mem_cons_self ..)
    have hr := fun n hn => h n (List.mem_cons_of_mem _ hn)
    have others (m : Memory) (hs : m.skipped = none) :
        ((visitOthers .marked setting scope place left (i + 1) nodes).run m).2.skipped = none :=
      skipped_eq_none (others_grow m hr scope place left (i + 1)) hs
    unfold visitOthers
    unfold firstCaption? at hf
    by_cases hk : node.kind = .caption
    · rw [if_pos hk, Option.some.injEq] at hf
      subst hf
      rw [if_neg (by simp [hc])]
      refine others _ ?_
      rcases hm with hm | hm
      · exact congrArg (fun r => r.2.skipped) (visit_of_skipped setting hm node)
      · exact skipped_eq_none (hn memory scope (i :: place) "") hm
    rw [if_neg hk] at hf
    by_cases hi : left i = true
    · rw [if_pos hi]
      exact visitOthers_clears hc hr hf hm
    · rw [if_neg hi]
      refine visitOthers_clears hc hr hf ?_
      rcases (hn memory scope (i :: place) "" memory (.refl memory)).2.skipped with hs | hs
      · exact hm.imp hs.trans hs.trans
      · exact Or.inr hs

/-- The mark that a figure sets is gone when the figure is done. -/
theorem figure_grows (m₀ : Memory) {node media : Node} {index : Nat}
    (hm : firstMedia? node.content = some (index, media)) (h : ∀ inner ∈ node.content, NodeGrows setting inner)
    (h' : ∀ part ∈ node.content, ∀ inner ∈ part.content, NodeGrows setting inner)
    (scope : Scope) (place : Place) (indent : String) :
    Adds m₀ (visitBy .marked setting scope place indent node (.figure index media)) := by
  intro memory hg
  refine ⟨trivial, ?_⟩
  have hc := (caption_grows m₀ h' scope place memory hg).2
  have hp := visitCaption_place .marked setting scope place memory node.content 0
  simp only [visitBy]
  show Grows m₀ ((skipCaption ((visitCaption .marked setting scope place 0 node.content).run memory).1 >>=
    fun _ => _).run ((visitCaption .marked setting scope place 0 node.content).run memory).2).2
  generalize (visitCaption .marked setting scope place 0 node.content).run memory = caption at hc hp ⊢
  obtain ⟨caption, memory'⟩ := caption
  cases caption with
  | none => exact (others_grow m₀ h scope place _ 0 memory' hc).2
  | some caption =>
    obtain ⟨captionPlace, text⟩ := caption
    obtain ⟨c, hf, rfl⟩ := Option.map_eq_some_iff.1 hp.symm
    have hne := firstCaption?_ne_firstMedia? hf hm
    rw [Nat.zero_add] at hne
    have hs : ((visitOthers .marked setting scope place (Captions.marked.left node.content index) 0 node.content).run
        (memory'.skip (c :: place))).2.skipped = none :=
      visitOthers_clears (decide_eq_false hne) h hf (Or.inl rfl)
    exact hc.trans_skip (others_grow _ h scope place _ 0 _ (.refl _)).2 hs

end

/-! ## Nodes -/

/-- **Memory only grows.** Whatever is rendered, anchors and mentions are only added, no anchor twice,
and the mark of a caption is taken away by those who set it. -/
theorem node_grows (setting : Setting) (node : Node) : NodeGrows setting node := by
  refine Node.below_induction (fun node ih => ?_) node
  intro m₀ scope place indent
  rw [visit_def]
  refine .bind (adds_takeSkip m₀ place) fun skipped _ => ?_
  by_cases hs : skipped
  · rw [if_pos hs]
    exact .pure trivial
  rw [if_neg hs]
  show Adds m₀ (visitBy .marked setting scope place indent node _)
  generalize hrule : Rule.ofNode setting scope indent node = rule
  by_cases hf : ∃ index media, rule = .figure index media
  · obtain ⟨index, media, rfl⟩ := hf
    exact figure_grows m₀ (ofNode_fits hrule).2 (fun inner h => ih inner (.child h))
      (fun _ hp inner h => ih inner (.grandchild h hp)) scope place indent
  · exact visitBy_rel (.holds .marked _) scope place indent
      (fun inner hb scope place indent _ => ih inner hb m₀ scope place indent)
      (fun leaf _ => (reads_renderLeaf setting scope node leaf).adds m₀)
      (fun notices => (reads_noteAll notices).adds m₀) fun index media he => hf ⟨index, media, he⟩

/-! ## Runs -/

inductive Action where
  | render (place : Place) (indent : String) (node : Node)
  | addAnchor (id : String)
  | addMention (name id : String)

def Action.perform : Action → WalkM Unit
  | .render place indent node => do
    let _ ← Walk.render place indent node
  | .addAnchor id => Walk.onMemory (modify (·.addAnchor id))
  | .addMention name id => Walk.onMemory (modify (·.addMention name id))

def performAll : List Action → WalkM Unit
  | [] => return ()
  | action :: actions => do
    action.perform
    performAll actions

/-- What a later context has to do with an earlier one. -/
structure Context.Grows (before after : Context) : Prop where
  setting : after.setting = before.setting
  scope : after.scope = before.scope
  memory : Render.Grows before.memory after.memory

theorem perform_grows (action : Action) (before : Context) :
    before.Grows (action.perform.run before).2 := by
  cases action with
  | render place indent node =>
    have h := node_grows before.setting node before.memory before.scope place indent
    rw [Action.perform, Walk.render_eq]
    exact ⟨rfl, rfl, (h before.memory (.refl _)).2⟩
  | addAnchor id => exact ⟨rfl, rfl, ((reads_addAnchor (some id)).adds before.memory before.memory (.refl _)).2⟩
  | addMention name id => exact ⟨rfl, rfl, ((reads_addMention name id).adds before.memory before.memory (.refl _)).2⟩

theorem performAll_grows (actions : List Action) (before : Context) :
    before.Grows ((performAll actions).run before).2 := by
  induction actions generalizing before with
  | nil => exact ⟨rfl, rfl, .refl _⟩
  | cons action actions ih =>
    have step := perform_grows action before
    have rest := ih (action.perform.run before).2
    exact ⟨rest.setting.trans step.setting, rest.scope.trans step.scope, step.memory.trans rest.memory⟩

/-- **Runs keep the context in order.** After any actions, setting and scope are those of the start; the
anchors of the start come first and no anchor stands twice; who was mentioned is still; the mark is the
old one or gone, and none comes from nothing. -/
theorem performAll_keeps (actions : List Action) (before : Context) (h : before.memory.anchors.Nodup) :
    let after := ((performAll actions).run before).2
    after.setting = before.setting ∧ after.scope = before.scope ∧
      (before.memory.anchors <+: after.memory.anchors ∧ after.memory.anchors.Nodup) ∧
      (∀ name, (before.memory.mentions.lookup name).isSome → (after.memory.mentions.lookup name).isSome) ∧
      (after.memory.skipped = before.memory.skipped ∨ after.memory.skipped = none) ∧
      (before.memory.skipped = none → after.memory.skipped = none) := by
  intro after
  obtain ⟨hsetting, hscope, hm⟩ := performAll_grows actions before
  refine ⟨hsetting, hscope, ⟨hm.anchors, hm.nodup h⟩, hm.mentions, hm.skipped, fun hs => ?_⟩
  rcases hm.skipped with hk | hk
  · exact hk.trans hs
  · exact hk

/-- After a captioned figure and two repeated anchors, the mark is gone and the anchors differ. -/
theorem performAll_keeps_figure :
    let before : Context := { memory := { anchors := ["top"] } }
    let media : Node := { type := "media" }
    let caption : Node := { type := "caption", content := [{ type := "text", text := some "view" }] }
    let figure : Node := { type := "mediaSingle", content := [media, caption] }
    let after := ((performAll [.addAnchor "top", .render [] "" figure, .addAnchor "end"]).run before).2
    before.memory.anchors.Nodup ∧ after.memory.anchors.Nodup ∧ after.memory.skipped = none := by
  intro before media caption figure after
  have hn : before.memory.anchors.Nodup := by decide
  obtain ⟨-, -, ⟨-, hd⟩, -, -, hs⟩ :=
    performAll_keeps [.addAnchor "top", .render [] "" figure, .addAnchor "end"] before hn
  exact ⟨hn, hd, hs rfl⟩

end WikiPress.Render
