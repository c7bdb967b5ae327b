import WikiPress.Render.Rule

/-!
# Leaves

A leaf reads of the memory only the anchors. What it adds to anchors and mentions is known before, and the
mark is nothing to it.
-/

namespace WikiPress.Render

/-! ## What is recorded -/

/-- Anchors with more of them; those that are there already are not added again. -/
def addAnchors (anchors ids : List String) : List String :=
  ids.foldl (fun anchors id => if anchors.contains id then anchors else anchors ++ [id]) anchors

/-- Mentions with more of them, the later ones in the place of the earlier. -/
def addMentions (mentions : Dictionary String) (users : List (String × String)) : Dictionary String :=
  users.foldl (fun mentions (name, id) => mentions.insert name id) mentions

theorem addAnchors_append (anchors ids ids' : List String) :
    addAnchors anchors (ids ++ ids') = addAnchors (addAnchors anchors ids) ids' :=
  List.foldl_append ..

theorem addMentions_append (mentions : Dictionary String) (users users' : List (String × String)) :
    addMentions mentions (users ++ users') = addMentions (addMentions mentions users) users' :=
  List.foldl_append ..

theorem mem_addAnchors {id : String} {ids : List String} : ∀ {anchors : List String},
    id ∈ addAnchors anchors ids ↔ id ∈ anchors ∨ id ∈ ids := by
  induction ids with
  | nil => simp [addAnchors]
  | cons first ids ih =>
    intro anchors
    rw [addAnchors, List.foldl_cons]
    refine ih.trans ?_
    by_cases h : anchors.contains first = true
    · rw [if_pos h]
      rw [List.contains_iff_mem] at h
      grind
    · rw [if_neg h]
      grind

theorem addAnchors_of_subset {anchors ids : List String} (h : ∀ id ∈ ids, id ∈ anchors) :
    addAnchors anchors ids = anchors := by
  induction ids with
  | nil => rfl
  | cons first ids ih =>
    have hf : anchors.contains first = true := List.contains_iff_mem.2 (h first (List.mem_cons_self ..))
    rw [addAnchors, List.foldl_cons, if_pos hf]
    exact ih fun id hi => h id (List.mem_cons_of_mem _ hi)

/-! ## Steps that read anchors -/

/-- The step reads only the anchors, adds the given anchors and mentions, and leaves the mark alone. -/
def Reads {α : Type} (step : RenderM α) (anchors : List String) (mentions : List (String × String)) : Prop :=
  ∃ (value : List String → α) (notices : List String → List Notice), ∀ memory : Memory,
    step.run memory = (value memory.anchors,
      { anchors := addAnchors memory.anchors anchors
        mentions := addMentions memory.mentions mentions
        skipped := memory.skipped
        notices := notices memory.anchors ++ memory.notices })

namespace Reads

variable {α β : Type}

theorem pure (a : α) : Reads (pure a) [] [] :=
  ⟨fun _ => a, fun _ => [], fun _ => rfl⟩

theorem bind {step : RenderM α} {next : α → RenderM β} {anchors anchors' : List String}
    {mentions mentions' : List (String × String)} (h : Reads step anchors mentions)
    (hn : ∀ a, Reads (next a) anchors' mentions') :
    Reads (step >>= next) (anchors ++ anchors') (mentions ++ mentions') := by
  obtain ⟨value, notices, hstep⟩ := h
  obtain ⟨value', hn⟩ := Classical.skolem.1 hn
  obtain ⟨notices', hnext⟩ := Classical.skolem.1 hn
  refine ⟨fun found => value' (value found) (addAnchors found anchors),
    fun found => notices' (value found) (addAnchors found anchors) ++ notices found, fun memory => ?_⟩
  show (next (step.run memory).1).run (step.run memory).2 = _
  rw [hstep, hnext, addAnchors_append, addMentions_append, List.append_assoc]

theorem map {step : RenderM α} {anchors : List String} {mentions : List (String × String)} (f : α → β)
    (h : Reads step anchors mentions) : Reads (do return f (← step)) anchors mentions := by
  have := h.bind fun a => pure (f a)
  rwa [List.append_nil, List.append_nil] at this

end Reads

theorem reads_note (notice : Notice) : Reads (note notice) [] [] :=
  ⟨fun _ => (), fun _ => [notice], fun _ => rfl⟩

theorem reads_noteAll : ∀ notices, Reads (noteAll notices) [] []
  | [] => .pure ()
  | notice :: notices => (reads_note notice).bind fun _ => reads_noteAll notices

theorem reads_addAnchor : ∀ anchor : Option String, Reads (addAnchor anchor) anchor.toList []
  | none => .pure ()
  | some id => by
    refine ⟨fun _ => (), fun _ => [], fun memory => ?_⟩
    show ((), memory.addAnchor id) = _
    simp only [Memory.addAnchor, Option.toList_some, addAnchors, List.foldl_cons, List.foldl_nil]
    by_cases h : memory.anchors.contains id = true
    · rw [if_pos h, if_pos h]
      rfl
    · rw [if_neg h, if_neg h]
      rfl

theorem reads_addMention (name id : String) : Reads (modify (·.addMention name id)) [] [(name, id)] :=
  ⟨fun _ => (), fun _ => [], fun _ => rfl⟩

def Leaf.anchors (node : Node) : Leaf → List String
  | .handled _ handler =>
    match handler.render node with
    | .ok result => result.anchor.toList
    | .error _ => []
  | _ => []

def Leaf.mentions (node : Node) : Leaf → List (String × String)
  | .mention =>
    let id := (node.text? "id").getD ""
    if mentionedName node ≠ "" ∧ id ≠ "" then [(mentionedName node, id)] else []
  | _ => []

theorem noteLink_eq (options : Options) (href : String) (memory : Memory) :
    noteLink options href memory =
      { memory with notices :=
          (if Link.isUnmappedPage options memory.anchors href then [Notice.unmappedPage href] else []) ++
            memory.notices } := by
  unfold noteLink
  split <;> rfl

theorem run_renderText (options : Options) (inCell : Bool) (node : Node) (memory : Memory) :
    ((renderText options inCell node).run memory).1 = textMarkup options memory.anchors inCell node := by
  unfold renderText
  cases href? node.marks with
  | none => rfl
  | some href =>
    by_cases hb : Text.isAllBlank node.ownText
    · simp only [hb]
      rfl
    · simp only [hb]
      rfl

theorem reads_renderText (options : Options) (inCell : Bool) (node : Node) :
    Reads (renderText options inCell node) [] [] := by
  unfold renderText
  cases href? node.marks with
  | none => exact ⟨fun anchors => textMarkup options anchors inCell node, fun _ => [], fun _ => rfl⟩
  | some href =>
    by_cases hb : Text.isAllBlank node.ownText
    · simp only [hb]
      exact ⟨fun anchors => textMarkup options anchors inCell node, fun _ => [], fun _ => rfl⟩
    · simp only [hb]
      refine ⟨fun anchors => textMarkup options anchors inCell node,
        fun anchors => if Link.isUnmappedPage options anchors href then [.unmappedPage href] else [], fun memory => ?_⟩
      have hnote := noteLink_eq options href memory
      exact congrArg (fun after => (textMarkup options memory.anchors inCell node, after)) hnote

theorem reads_renderCard (options : Options) (title? : String → Option String) (inCell : Bool) (node : Node) :
    Reads (renderCard options title? inCell node) [] [] := by
  unfold renderCard
  cases node.someText? "url" with
  | none => exact .pure ""
  | some url =>
    let value (anchors : List String) : String :=
      escapeInCell inCell (Link.markup (Link.classify options anchors url) (cardLabel options title? url))
    refine ⟨value, fun anchors => if Link.isUnmappedPage options anchors url then [.unmappedPage url] else [],
      fun memory => ?_⟩
    exact congrArg (fun after => (value memory.anchors, after)) (noteLink_eq options url memory)

theorem reads_renderMention (inCell : Bool) (node : Node) :
    Reads (renderMention inCell node) [] (Leaf.mention.mentions node) := by
  unfold renderMention Leaf.mentions
  by_cases h : mentionedName node ≠ "" ∧ (node.text? "id").getD "" ≠ ""
  · simp only [if_pos h]
    exact (reads_addMention _ _).bind fun _ => .pure _
  · simp only [if_neg h]
    exact .pure _

theorem reads_renderMacro (position : Macro.Position) (node : Node) (handler : Macro) :
    Reads (renderMacro position node handler) ((Leaf.handled position handler).anchors node) [] := by
  simp only [renderMacro, Leaf.anchors]
  cases handler.render node with
  | error failure => exact (reads_note _).bind fun _ => .pure _
  | ok result =>
    have hnotes := (reads_noteAll result.notice.toList).map fun _ => result.fragments
    have h := (reads_addAnchor result.anchor).bind fun _ => hnotes
    rwa [List.append_nil, List.append_nil] at h

/-- **Leaves read only anchors.** -/
theorem reads_renderLeaf (setting : Setting) (scope : Scope) (node : Node) (leaf : Leaf) :
    Reads (renderLeaf setting scope node leaf) (leaf.anchors node) (leaf.mentions node) := by
  cases leaf with
  | fixed fragments => exact .pure fragments
  | text => exact (reads_renderText setting.options scope.inCell node).map fun text => [text]
  | mention => exact (reads_renderMention scope.inCell node).map fun text => [text]
  | card => exact (reads_renderCard setting.options setting.title? scope.inCell node).map fun text => [text]
  | handled position handler => exact reads_renderMacro position node handler

end WikiPress.Render
