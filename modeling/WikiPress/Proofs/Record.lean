import WikiPress.Proofs.Judgement
import WikiPress.Proofs.Leaf
import WikiPress.Proofs.Unmarked

/-!
# What is recorded

Rendering adds the anchors and the mentions of the nodes that it meets, in order, whatever it found in the
memory.
-/

namespace WikiPress.Render

/-! ## Anchors and mentions of a node -/

def anchorsIn (setting : Setting) (node : Node) : List String :=
  (met setting node).flatMap fun inner =>
    match Rule.ofNode setting {} "" inner with
    | .leaf leaf => leaf.anchors inner
    | _ => []

def mentionsIn (setting : Setting) (node : Node) : List (String × String) :=
  (met setting node).flatMap fun inner =>
    match Rule.ofNode setting {} "" inner with
    | .leaf leaf => leaf.mentions inner
    | _ => []

section
variable {setting : Setting} {node : Node}

theorem ofNode_leaf_iff (scope : Scope) (indent : String) {leaf : Leaf} :
    Rule.ofNode setting scope indent node = .leaf leaf ↔ Rule.ofNode setting {} "" node = .leaf leaf := by
  unfold Rule.ofNode
  cases node.kind <;> simp [Rule.ofMacro]

theorem recorded_of_leaf {scope : Scope} {indent : String} {leaf : Leaf}
    (h : Rule.ofNode setting scope indent node = .leaf leaf) :
    anchorsIn setting node = leaf.anchors node ∧ mentionsIn setting node = leaf.mentions node := by
  have hl := (ofNode_leaf_iff scope indent).1 h
  have hv : visited setting node = [] := by rw [visited, hl]; rfl
  simp [anchorsIn, mentionsIn, met_def, hv, hl]

theorem recorded_of_not_leaf {scope : Scope} {indent : String}
    (h : ∀ leaf, Rule.ofNode setting scope indent node ≠ .leaf leaf) :
    anchorsIn setting node = (visited setting node).flatMap (anchorsIn setting) ∧
      mentionsIn setting node = (visited setting node).flatMap (mentionsIn setting) := by
  have hl : ∀ leaf, Rule.ofNode setting {} "" node ≠ .leaf leaf := fun leaf he =>
    h leaf ((ofNode_leaf_iff scope indent).2 he)
  unfold anchorsIn mentionsIn
  rw [met_def]
  cases hr : Rule.ofNode setting {} "" node with
  | leaf leaf => exact absurd hr (hl leaf)
  | _ => simp [hr, List.flatMap_assoc]

end

/-! ## Steps that record -/

/-- The step adds the anchors and mentions of the visited nodes. -/
def Records {α : Type} (setting : Setting) (step : RenderM α) (visits : List Node) (Q : α → Prop) : Prop :=
  ∀ memory : Memory,
    (step.run memory).2.anchors = addAnchors memory.anchors (visits.flatMap (anchorsIn setting)) ∧
      (step.run memory).2.mentions = addMentions memory.mentions (visits.flatMap (mentionsIn setting)) ∧
      Q (step.run memory).1

namespace Records

variable {α β : Type} {setting : Setting} {v w : List Node} {Q R : α → Prop}

theorem pure {a : α} (h : Q a) : Records setting (pure a) [] Q :=
  fun _ => ⟨rfl, rfl, h⟩

theorem bind {step : RenderM α} {next : α → RenderM β} {R : β → Prop} (h : Records setting step v Q)
    (hn : ∀ a, Q a → Records setting (next a) w R) : Records setting (step >>= next) (v ++ w) R := by
  intro memory
  obtain ⟨ha, hm, hq⟩ := h memory
  obtain ⟨ha', hm', hr⟩ := hn _ hq (step.run memory).2
  rw [List.flatMap_append, List.flatMap_append, addAnchors_append, addMentions_append, ← ha, ← hm]
  exact ⟨ha', hm', hr⟩

theorem mono {step : RenderM α} (h : Records setting step v Q) (hQ : ∀ a, Q a → R a) : Records setting step v R := by
  intro memory
  obtain ⟨ha, hm, hq⟩ := h memory
  exact ⟨ha, hm, hQ _ hq⟩

theorem of_reads {step : RenderM α} {anchors : List String} {mentions : List (String × String)}
    (h : Reads step anchors mentions) (hv : v.flatMap (anchorsIn setting) = anchors)
    (hv' : v.flatMap (mentionsIn setting) = mentions) : Records setting step v fun _ => True := by
  obtain ⟨value, notices, hstep⟩ := h
  intro memory
  rw [hstep, hv, hv']
  exact ⟨rfl, rfl, trivial⟩

end Records

abbrev Judgement.records (setting : Setting) : Judgement where
  first := .once
  second := .once
  rel x _ := Records setting x
  pure := .pure
  bind := .bind
  mono := .mono

def NodeRecords (setting : Setting) (node : Node) : Prop :=
  ∀ (scope : Scope) (place : Place) (indent : String),
    Records setting (visit .once setting scope place indent node) [node] fun _ => True

/-- **What rendering records.** It adds the anchors and mentions of the nodes that it meets. -/
theorem node_records (setting : Setting) (node : Node) : NodeRecords setting node := by
  refine Node.below_induction (fun node ih => ?_) node
  intro scope place indent
  rw [Captions.once, visit_unmarked, ← Captions.once]
  have hvisits := visits_ofNode setting node scope indent
  have hleaf : ∀ leaf, Rule.ofNode setting scope indent node = .leaf leaf → _ := fun _ => recorded_of_leaf
  have hnode : (∀ leaf, Rule.ofNode setting scope indent node ≠ .leaf leaf) → _ := recorded_of_not_leaf
  generalize Rule.ofNode setting scope indent node = rule at hvisits hleaf hnode ⊢
  by_cases hl : ∃ leaf, rule = .leaf leaf
  · obtain ⟨leaf, rfl⟩ := hl
    obtain ⟨ha, hm⟩ := hleaf leaf rfl
    exact .of_reads (reads_renderLeaf setting scope node leaf) (by simp [ha]) (by simp [hm])
  have hby : Records setting (visitBy .once setting scope place indent node rule) (visited setting node)
      fun _ => True := by
    rw [← hvisits]
    by_cases hf : ∃ index media, rule = .figure index media
    · obtain ⟨index, media, rfl⟩ := hf
      have hmark : Records setting (pure ()) [] fun _ => True := .pure trivial
      refine visitBy_figure_rel (.records setting) scope place indent media
        (fun inner hb scope place indent _ => ih inner hb scope place indent) (fun _ => hmark) ?_ ?_
      · simp [Captions.once, Captions.unmarked]
      · simp [Captions.once, Captions.unmarked]
    · exact visitBy_rel (.records setting) scope place indent
        (fun inner hb scope place indent _ => ih inner hb scope place indent) (fun leaf he => absurd ⟨leaf, he⟩ hl)
        (fun notices => .of_reads (reads_noteAll notices) rfl rfl) fun index media he => hf ⟨index, media, he⟩
  obtain ⟨ha, hm⟩ := hnode fun leaf he => hl ⟨leaf, he⟩
  intro memory
  rw [List.flatMap_singleton, List.flatMap_singleton, ha, hm]
  exact hby memory

theorem content_records (setting : Setting) (node : Node) (scope : Scope) (place : Place) :
    Records setting (visitContent .once setting scope place node) node.content fun _ => True :=
  visitContent_rel (.records setting) (Q := fun _ => True) (visitAll_rel (.records setting) .trivial
    (fun inner _ i => node_records setting inner scope (i :: place) "") 0)

theorem others_record (setting : Setting) (nodes : List Node) (scope : Scope) (place : Place) (left : Nat → Bool)
    (i : Nat) : Records setting (visitOthers .once setting scope place left i nodes) (otherVisits left i nodes) fun _ => True :=
  visitOthers_rel (.records setting) .trivial (fun _ => trivial) i fun inner _ j _ =>
    node_records setting inner scope (j :: place) ""

end WikiPress.Render
