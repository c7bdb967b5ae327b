import WikiPress.Proofs.Judgement
import WikiPress.Proofs.Leaf
import WikiPress.Proofs.Walk

/-!
# Independence of what was written before

Of the memory that rendering finds, it asks only whether an anchor is there and which node is to be left out. Two
runs that find the same of these go the same way: they give the same and add the same.
-/

namespace WikiPress.Render

/-! ## What is added -/

/-- What rendering adds to a memory. The latest notice comes first, as in the memory. -/
structure Gain where
  anchors : List String := []
  users : List (String × String) := []
  notices : List Notice := []

def Gain.andThen (gain later : Gain) : Gain where
  anchors := gain.anchors ++ later.anchors
  users := gain.users ++ later.users
  notices := later.notices ++ gain.notices

/-- The memory with a gain, and with another node to be left out. -/
def Memory.extended (memory : Memory) (gain : Gain) (left : Option Place) : Memory where
  anchors := memory.anchors ++ gain.anchors
  mentions := addMentions memory.mentions gain.users
  skipped := left
  notices := gain.notices ++ memory.notices

theorem Memory.extended_extended (memory : Memory) (gain later : Gain) (left left' : Option Place) :
    (memory.extended gain left).extended later left' = memory.extended (gain.andThen later) left' := by
  simp only [Memory.extended, Gain.andThen, List.append_assoc, addMentions_append]

/-- Memories with the same anchors, in whatever order, in which the same node is to be left out. -/
structure Similar (memory memory' : Memory) : Prop where
  anchors : ∀ id, id ∈ memory.anchors ↔ id ∈ memory'.anchors
  skipped : memory.skipped = memory'.skipped

namespace Similar

variable {memory memory' : Memory} (h : Similar memory memory')
include h

theorem extended (gain : Gain) (left : Option Place) :
    Similar (memory.extended gain left) (memory'.extended gain left) where
  anchors id := by simp only [Memory.extended, List.mem_append, h.anchors]
  skipped := rfl

theorem contains (id : String) : memory.anchors.contains id = memory'.anchors.contains id := by
  rw [Bool.eq_iff_iff, List.contains_iff_mem, List.contains_iff_mem]
  exact h.anchors id

theorem anchor? (href : String) : Link.anchor? memory.anchors href = Link.anchor? memory'.anchors href := by
  simp only [Link.anchor?, h.contains]

theorem classify (options : Options) (href : String) :
    Link.classify options memory.anchors href = Link.classify options memory'.anchors href := by
  simp only [Link.classify, h.anchor?]

theorem isUnmappedPage (options : Options) (href : String) :
    Link.isUnmappedPage options memory.anchors href = Link.isUnmappedPage options memory'.anchors href := by
  simp only [Link.isUnmappedPage, h.anchor?]

theorem textMarkup (options : Options) (inCell : Bool) (node : Node) :
    textMarkup options memory.anchors inCell node = textMarkup options memory'.anchors inCell node := by
  simp only [Render.textMarkup, linkedText, h.classify]

end Similar

/-! ## Steps side by side -/

/-- From similar memories both steps give the same, and add the same. -/
def Parallel {α : Type} (x y : RenderM α) (Q : α → Prop) : Prop :=
  ∀ memory memory' : Memory, Similar memory memory' → ∃ a gain left, Q a ∧
    x.run memory = (a, memory.extended gain left) ∧ y.run memory' = (a, memory'.extended gain left)

/-- A step that runs beside itself. -/
abbrev Steady {α : Type} (step : RenderM α) : Prop :=
  Parallel step step fun _ => True

namespace Parallel

variable {α β : Type} {x y : RenderM α} {Q : α → Prop}

theorem pure {a : α} (h : Q a) : Parallel (pure a) (pure a) Q := by
  intro memory memory' hm
  have run (memory : Memory) : memory = memory.extended {} memory.skipped := by
    rw [Memory.extended, List.append_nil]
    rfl
  refine ⟨a, {}, memory.skipped, h, congrArg (a, ·) (run memory), ?_⟩
  rw [hm.skipped]
  exact congrArg (a, ·) (run memory')

theorem bind {f g : α → RenderM β} {R : β → Prop} (h : Parallel x y Q) (hf : ∀ a, Q a → Parallel (f a) (g a) R) :
    Parallel (x >>= f) (y >>= g) R := by
  intro memory memory' hm
  obtain ⟨a, gain, left, ha, hx, hy⟩ := h memory memory' hm
  obtain ⟨b, later, left', hb, hf, hg⟩ := hf a ha _ _ (hm.extended gain left)
  refine ⟨b, gain.andThen later, left', hb, ?_, ?_⟩
  · rw [run_bind hx, hf, Memory.extended_extended]
  · rw [run_bind hy, hg, Memory.extended_extended]

theorem mono {R : α → Prop} (h : Parallel x y Q) (hQ : ∀ a, Q a → R a) : Parallel x y R := by
  intro memory memory' hm
  obtain ⟨a, gain, left, ha, hx, hy⟩ := h memory memory' hm
  exact ⟨a, gain, left, hQ a ha, hx, hy⟩

theorem map (f : α → β) (h : Steady x) : Steady (do return f (← x)) :=
  h.bind fun _ _ => .pure trivial

/-- A step is steady if what it gives and adds is the same for similar memories. -/
theorem of_run (value : Memory → α) (gain : Memory → Gain) (left : Memory → Option Place)
    (run : ∀ memory, x.run memory = (value memory, memory.extended (gain memory) (left memory)))
    (same : ∀ memory memory', Similar memory memory' →
      value memory = value memory' ∧ gain memory = gain memory' ∧ left memory = left memory') : Steady x := by
  intro memory memory' hm
  obtain ⟨hvalue, hgain, hleft⟩ := same memory memory' hm
  refine ⟨value memory, gain memory, left memory, trivial, run memory, ?_⟩
  rw [hvalue, hgain, hleft]
  exact run memory'

end Parallel

abbrev Judgement.parallel : Judgement where
  first := .marked
  second := .marked
  rel x y _ Q := Parallel x y Q
  pure := .pure
  bind := .bind
  mono := .mono

/-! ## Steps on the memory -/

theorem steady_takeSkip (place : Place) : Steady (takeSkip place) := by
  refine .of_run (fun memory => decide (memory.skipped = some place)) (fun _ => {})
    (fun memory => if memory.skipped = some place then none else memory.skipped) ?_ ?_
  · intro memory
    show memory.takeSkip place = _
    rw [Memory.takeSkip, Memory.extended, List.append_nil]
    by_cases h : memory.skipped = some place
    · rw [if_pos h, if_pos h, decide_eq_true h]
      rfl
    · rw [if_neg h, if_neg h, decide_eq_false h]
      rfl
  · intro memory memory' hm
    simp only [hm.skipped, and_self]

theorem steady_skipCaption (caption : Option (Place × String)) : Steady (skipCaption caption) := by
  cases caption with
  | none => exact .pure trivial
  | some caption =>
    refine .of_run (fun _ => ()) (fun _ => {}) (fun _ => some caption.1) ?_ fun _ _ _ => ⟨rfl, rfl, rfl⟩
    intro memory
    rw [Memory.extended, List.append_nil]
    rfl

theorem steady_note (notice : Notice) : Steady (note notice) := by
  refine .of_run (fun _ => ()) (fun _ => { notices := [notice] }) Memory.skipped ?_
    fun _ _ hm => ⟨rfl, rfl, hm.skipped⟩
  intro memory
  rw [Memory.extended, List.append_nil]
  rfl

theorem steady_noteAll : ∀ notices, Steady (noteAll notices)
  | [] => .pure trivial
  | notice :: notices => (steady_note notice).bind fun _ _ => steady_noteAll notices

theorem steady_addAnchor (anchor : Option String) : Steady (addAnchor anchor) := by
  cases anchor with
  | none => exact .pure trivial
  | some id =>
    refine .of_run (fun _ => ()) (fun memory => { anchors := if memory.anchors.contains id then [] else [id] })
      Memory.skipped ?_ ?_
    · intro memory
      show ((), memory.addAnchor id) = _
      rw [Memory.addAnchor]
      by_cases h : memory.anchors.contains id = true
      · rw [if_pos h, if_pos h, Memory.extended, List.append_nil]
        rfl
      · rw [if_neg h, if_neg h]
        rfl
    · intro memory memory' hm
      simp only [hm.contains, hm.skipped, and_self]

theorem steady_addMention (name id : String) : Steady (modify (·.addMention name id)) := by
  refine .of_run (fun _ => ()) (fun _ => { users := [(name, id)] }) Memory.skipped ?_
    fun _ _ hm => ⟨rfl, rfl, hm.skipped⟩
  intro memory
  rw [Memory.extended, List.append_nil]
  rfl

/-! ## Leaves -/

/-- A link looks for its target among the anchors, and may be told of. -/
theorem steady_link {options : Options} {href : String} (write : List String → String)
    (h : ∀ {memory memory'}, Similar memory memory' → write memory.anchors = write memory'.anchors) :
    Steady (do
      let memory ← get
      set (noteLink options href memory)
      return write memory.anchors) := by
  refine .of_run (fun memory => write memory.anchors) (fun memory =>
    { notices := if Link.isUnmappedPage options memory.anchors href then [.unmappedPage href] else [] })
    Memory.skipped ?_ ?_
  · intro memory
    show (write memory.anchors, noteLink options href memory) = _
    rw [noteLink_eq, Memory.extended, List.append_nil]
    rfl
  · intro memory memory' hm
    simp only [h hm, hm.isUnmappedPage, hm.skipped, and_self]

theorem steady_renderText (options : Options) (inCell : Bool) (node : Node) :
    Steady (renderText options inCell node) := by
  have unlinked : Steady (do
      let memory ← get
      return textMarkup options memory.anchors inCell node) := by
    refine .of_run (fun memory => textMarkup options memory.anchors inCell node) (fun _ => {}) Memory.skipped ?_
      fun _ _ hm => ⟨hm.textMarkup options inCell node, rfl, hm.skipped⟩
    intro memory
    rw [Memory.extended, List.append_nil]
    rfl
  unfold renderText
  cases href? node.marks with
  | none => exact unlinked
  | some href =>
    by_cases hb : Text.isAllBlank node.ownText
    · simp only [hb]
      exact unlinked
    · simp only [hb]
      exact steady_link (textMarkup options · inCell node) fun hm => hm.textMarkup options inCell node

theorem steady_renderCard (options : Options) (title? : String → Option String) (inCell : Bool) (node : Node) :
    Steady (renderCard options title? inCell node) := by
  unfold renderCard
  cases node.someText? "url" with
  | none => exact .pure trivial
  | some url =>
    apply steady_link fun anchors =>
      escapeInCell inCell (Link.markup (Link.classify options anchors url) (cardLabel options title? url))
    intro memory memory' hm
    rw [hm.classify]

theorem steady_renderMention (inCell : Bool) (node : Node) : Steady (renderMention inCell node) := by
  unfold renderMention
  by_cases h : mentionedName node ≠ "" ∧ (node.text? "id").getD "" ≠ ""
  · simp only [if_pos h]
    exact (steady_addMention _ _).bind fun _ _ => .pure trivial
  · simp only [if_neg h]
    exact .pure trivial

theorem steady_renderMacro (position : Macro.Position) (node : Node) (handler : Macro) :
    Steady (renderMacro position node handler) := by
  unfold renderMacro
  cases handler.render node with
  | error failure => exact (steady_note _).bind fun _ _ => .pure trivial
  | ok result =>
    have notices := (steady_noteAll result.notice.toList).map fun _ => result.fragments
    exact (steady_addAnchor result.anchor).bind fun _ _ => notices

theorem steady_renderLeaf (setting : Setting) (scope : Scope) (node : Node) (leaf : Leaf) :
    Steady (renderLeaf setting scope node leaf) := by
  cases leaf with
  | fixed fragments => exact .pure trivial
  | text => exact (steady_renderText setting.options scope.inCell node).map _
  | mention => exact (steady_renderMention scope.inCell node).map _
  | card => exact (steady_renderCard setting.options setting.title? scope.inCell node).map _
  | handled position handler => exact steady_renderMacro position node handler

/-! ## Nodes -/

theorem steady_visit (setting : Setting) (node : Node) : ∀ (scope : Scope) (place : Place) (indent : String),
    Steady (visit .marked setting scope place indent node) := by
  induction node using Node.below_induction with
  | step node ih =>
    intro scope place indent
    have below (inner : Node) (hb : Node.Below inner node) (scope : Scope) (place' : Place) (indent : String)
        (_ : place <:+ place') : Steady (visit .marked setting scope place' indent inner) :=
      ih inner hb scope place' indent
    rw [visit_def]
    apply Parallel.bind (steady_takeSkip place)
    intro skipped _
    by_cases hs : skipped
    · rw [if_pos hs]
      exact .pure trivial
    rw [if_neg hs]
    -- Only a figure has a node left out, so its step is none of those that `visitBy_rel` is about.
    by_cases hf : ∃ index media, Rule.ofNode setting scope indent node = .figure index media
    · obtain ⟨index, media, hrule⟩ := hf
      show Steady (visitBy .marked setting scope place indent node (Rule.ofNode setting scope indent node))
      rw [hrule]
      exact visitBy_figure_rel .parallel scope place indent media below steady_skipCaption rfl rfl
    · apply visitBy_rel .parallel scope place indent below
      · intro leaf _
        exact steady_renderLeaf setting scope node leaf
      · exact steady_noteAll
      · intro index media he
        exact hf ⟨index, media, he⟩

/-! ## Documents -/

/-- The context with a gain in its memory, and with another node to be left out. -/
def Context.extended (context : Context) (gain : Gain) (left : Option Place) : Context :=
  { context with memory := context.memory.extended gain left }

/-- **Independence of what was written before.** Contexts that differ only in the order of their anchors, in the users
mentioned and in the notices so far: rendering gives the same fragments in both, adds the same to both, and has the same
node left out. -/
theorem render_of_same_anchors (node : Node) (place : Place) (indent : String) {context context' : Context}
    (setting : context.setting = context'.setting) (scope : context.scope = context'.scope)
    (skipped : context.memory.skipped = context'.memory.skipped)
    (anchors : ∀ id, id ∈ context.memory.anchors ↔ id ∈ context'.memory.anchors) :
    ∃ fragments gain left,
      (Walk.render place indent node).run context = (fragments, context.extended gain left) ∧
        (Walk.render place indent node).run context' = (fragments, context'.extended gain left) := by
  obtain ⟨fragments, gain, left, -, h, h'⟩ := steady_visit context.setting node context.scope place indent
    context.memory context'.memory ⟨anchors, skipped⟩
  rw [Walk.render_eq]
  refine ⟨fragments, gain, left, ?_, ?_⟩
  · exact congrArg (fun result => (result.1, { context with memory := result.2 })) h
  · rw [setting, scope] at h'
    exact congrArg (fun result => (result.1, { context' with memory := result.2 })) h'

/-- A mention, an anchor and a link to an anchor met before. -/
theorem render_of_same_anchors_paragraph :
    let macroParams : Json.Value := .object [("", .object [("value", .string "c")])]
    let anchor : Node :=
      { type := "inlineExtension",
        attrs := [("extensionKey", .string "anchor"), ("parameters", .object [("macroParams", macroParams)])] }
    let mention : Node := { type := "mention", attrs := [("id", .string "7"), ("text", .string "@kim")] }
    let link : Node :=
      { type := "text", marks := [{ type := "link", attrs := [("href", .string "#b")] }], text := some "see" }
    let node : Node := { type := "paragraph", content := [mention, anchor, link] }
    let context : Context := { memory := { anchors := ["a", "b"] } }
    let context' : Context := { memory := { anchors := ["b", "a", "b"], mentions := [("kim", "3")] } }
    (∀ id, id ∈ context.memory.anchors ↔ id ∈ context'.memory.anchors) ∧
      ∃ gain : Gain, gain.anchors = ["c"] ∧
        (Walk.render [] "" node).run context = (["@kim[[c]]<<b,see>>\n\n"], context.extended gain none) ∧
        (Walk.render [] "" node).run context' = (["@kim[[c]]<<b,see>>\n\n"], context'.extended gain none) := by
  intro macroParams anchor mention link node context context'
  have hanchors : ∀ id, id ∈ context.memory.anchors ↔ id ∈ context'.memory.anchors := by
    intro id
    simp only [context, context', List.mem_cons]
    grind
  have hrun : ((Walk.render [] "" node).run context).1 = ["@kim[[c]]<<b,see>>\n\n"] ∧
      ((Walk.render [] "" node).run context).2.memory.anchors = ["a", "b"] ++ ["c"] ∧
      ((Walk.render [] "" node).run context).2.memory.skipped = none := by decide +kernel
  have hsetting : context.setting = context'.setting := rfl
  obtain ⟨fragments, gain, left, h, h'⟩ := render_of_same_anchors node [] "" hsetting rfl rfl hanchors
  rw [h] at hrun
  obtain ⟨rfl, hgain, rfl⟩ := hrun
  exact ⟨hanchors, gain, List.append_cancel_left hgain, h, h'⟩

end WikiPress.Render
