import WikiPress.Proofs.Rule
import WikiPress.Render.Walk

/-!
# The scope of a walk

A walk exchanges the scope for a nested construct and puts it back. So at every node the scope is the
one that rendering hands down (`render_eq`), and a walk leaves scope and setting as it found them.
-/

namespace WikiPress.Render.Walk

variable {α β : Type}

/-- A step that is given the setting and the scope of the moment. -/
def atScope (step : Setting → Scope → RenderM α) : WalkM α := fun context =>
  onMemory (step context.setting context.scope) context

theorem onMemory_eq (step : RenderM α) : onMemory step = atScope fun _ _ => step := rfl

theorem atScope_bind {step : Setting → Scope → RenderM α} {next : α → WalkM β}
    {next' : α → Setting → Scope → RenderM β} (h : ∀ a, next a = atScope (next' a)) :
    (atScope step >>= next) =
      atScope fun setting scope => step setting scope >>= fun a => next' a setting scope := by
  rw [show next = fun a => atScope (next' a) from funext h]; rfl

theorem get_bind {next : Context → WalkM α} {step : Setting → Scope → RenderM α}
    (h : ∀ context, next context context = atScope step context) : (get >>= next) = atScope step :=
  funext h

mutual
/-- **The scope is handed down.** A walk from a node renders it in the scope of the moment, and all it
changes is the memory. -/
theorem render_eq : ∀ (node : Node) (place : Place) (indent : String),
    render place indent node = atScope fun setting scope => visit .marked setting scope place indent node
  | ⟨type, attrs, content, marks, text⟩, place, indent => by
    simp only [render, visit, onMemory_eq]
    refine atScope_bind fun skipped => ?_
    by_cases hs : skipped
    · simp only [hs]; rfl
    simp only [hs]
    refine get_bind fun context => ?_
    simp only [atScope]
    cases Rule.ofNode context.setting context.scope indent ⟨type, attrs, content, marks, text⟩ with
    | leaf leaf => rfl
    | wrap markup => simp only [renderAll_eq content]; rfl
    | through indent notices => simp only [renderAll_eq content]; rfl
    | table => simp only [renderRows_eq content]; rfl
    | row => simp only [renderCells_eq content]; rfl
    | cell => simp only [renderParts_eq content]; rfl
    | list bulleted => simp only [renderItems_eq content]; rfl
    | item =>
      have parts := renderItemParts_eq content context.scope place indent false 0 context rfl
      exact congrArg (fun r => (([itemMarkup r.1] : List String), r.2)) parts
    | tasks => simp only [renderTasks_eq content]; rfl
    | figure index media =>
      simp only [renderCaption_eq content, renderOthers_eq content]
      rfl

theorem renderAll_eq : ∀ (nodes : List Node) (place : Place) (indent : String) (i : Nat),
    renderAll place indent i nodes =
      atScope fun setting scope => visitAll .marked setting scope place indent i nodes
  | [], _, _, _ => rfl
  | node :: nodes, place, indent, i => by
    simp only [renderAll, visitAll, render_eq node, renderAll_eq nodes]; rfl

theorem renderOthers_eq : ∀ (nodes : List Node) (place : Place) (index i : Nat),
    renderOthers place index i nodes =
      atScope fun setting scope => visitOthers .marked setting scope place (fun i => i = index) i nodes
  | [], _, _, _ => rfl
  | node :: nodes, place, index, i => by
    simp only [renderOthers, visitOthers, render_eq node, renderOthers_eq nodes, decide_eq_true_eq]
    split <;> rfl

theorem renderCaption_eq : ∀ (nodes : List Node) (place : Place) (i : Nat),
    renderCaption place i nodes =
      atScope fun setting scope => visitCaption .marked setting scope place i nodes
  | [], _, _ => rfl
  | node :: nodes, place, i => by
    simp only [renderCaption, visitCaption, renderContent_eq node, renderCaption_eq nodes]
    split <;> rfl

theorem renderContent_eq : ∀ (node : Node) (place : Place),
    renderContent place node =
      atScope fun setting scope => visitContent .marked setting scope place node
  | ⟨_, _, content, _, _⟩, place => by
    simp only [renderContent, visitContent, renderAll_eq content]; rfl

theorem renderItems_eq : ∀ (nodes : List Node) (place : Place) (indent : String) (i : Nat),
    renderItems place indent i nodes =
      atScope fun setting scope => visitItems .marked setting scope place indent i nodes
  | [], _, _, _ => rfl
  | node :: nodes, place, indent, i => by
    simp only [renderItems, visitItems, renderItem_eq node, renderItems_eq nodes]
    split <;> rfl

theorem renderItem_eq : ∀ (node : Node) (place : Place) (indent : String),
    renderItem place indent node =
      atScope fun setting scope => visitItem .marked setting scope place indent node
  | ⟨_, _, content, _, _⟩, place, indent => by
    simp only [renderItem, visitItem]
    refine get_bind fun context => ?_
    have parts := renderItemParts_eq content context.scope place indent false 0 context rfl
    exact congrArg (fun r => (itemMarkup r.1, r.2)) parts

theorem renderItemParts_eq : ∀ (nodes : List Node) (outer : Scope) (place : Place) (indent : String) (started : Bool)
    (i : Nat) (context : Context), context.scope = outer →
    renderItemParts outer place indent started i nodes context =
      atScope (fun setting scope => visitItemParts .marked setting scope place indent started i nodes) context
  | [], _, _, _, _, _, _, _ => rfl
  | node :: nodes, _, place, indent, started, i, context, rfl => by
    simp only [renderItemParts, visitItemParts, render_eq node]
    let part := (visit .marked context.setting context.scope (i :: place) (partIndent indent started node.kind)
      node).run context.memory
    let lines := partLines context.scope indent started node.kind (String.join part.1)
    exact congrArg (fun r => (lines ++ r.1, r.2)) (renderItemParts_eq nodes context.scope place indent
      (started || !lines.isEmpty) (i + 1) { context with memory := part.2 } rfl)

theorem renderTasks_eq : ∀ (nodes : List Node) (place : Place) (indent : String) (i : Nat),
    renderTasks place indent i nodes =
      atScope fun setting scope => visitTasks .marked setting scope place indent i nodes
  | [], _, _, _ => rfl
  | node :: nodes, place, indent, i => by
    simp only [renderTasks, visitTasks, renderContent_eq node, render_eq node, renderTasks_eq nodes]
    split
    · rfl
    · split <;> rfl

theorem renderRows_eq : ∀ (nodes : List Node) (place : Place) (i : Nat),
    renderRows place i nodes =
      atScope fun setting scope => visitRows .marked setting scope place i nodes
  | [], _, _ => rfl
  | node :: nodes, place, i => by
    simp only [renderRows, visitRows, renderRow_eq node, renderRows_eq nodes]; rfl

theorem renderRow_eq : ∀ (node : Node) (place : Place),
    renderRow place node = atScope fun setting scope => visitRow .marked setting scope place node
  | ⟨_, _, content, _, _⟩, place => by
    simp only [renderRow, visitRow, renderCells_eq content]; rfl

theorem renderCells_eq : ∀ (nodes : List Node) (place : Place) (i : Nat),
    renderCells place i nodes =
      atScope fun setting scope => visitCells .marked setting scope place i nodes
  | [], _, _ => rfl
  | node :: nodes, place, i => by
    simp only [renderCells, visitCells, renderCell_eq node, renderCells_eq nodes]; rfl

theorem renderCell_eq : ∀ (node : Node) (place : Place),
    renderCell place node = atScope fun setting scope => visitCell .marked setting scope place node
  | ⟨_, _, content, _, _⟩, place => by
    simp only [renderCell, visitCell, renderParts_eq content]; rfl

theorem renderParts_eq : ∀ (nodes : List Node) (place : Place) (i : Nat),
    renderParts place i nodes =
      atScope fun setting scope => visitParts .marked setting scope place i nodes
  | [], _, _ => rfl
  | node :: nodes, place, i => by
    simp only [renderParts, visitParts, render_eq node, renderParts_eq nodes]; rfl
end

theorem within_atScope (setting : Setting) (scope : Scope) (step : Setting → Scope → RenderM α) :
    within setting scope (atScope step) = step setting scope := rfl

theorem within_render (setting : Setting) (scope : Scope) (place : Place) (indent : String) (node : Node) :
    within setting scope (render place indent node) = visit .marked setting scope place indent node := by
  rw [render_eq, within_atScope]

theorem run_onMemory (step : RenderM α) (context : Context) : (onMemory step).run context =
    ((step.run context.memory).1, { context with memory := (step.run context.memory).2 }) := rfl

/-- At a place that is not left out the rule of a node says what its rendering does. -/
theorem run_render {place : Place} {context : Context} (h : context.memory.skipped ≠ some place) (indent : String)
    {node : Node} {rule : Rule} (hrule : Rule.ofNode context.setting context.scope indent node = rule) :
    (render place indent node).run context =
      (onMemory (visitBy .marked context.setting context.scope place indent node rule)).run context := by
  have hvisit := run_visit context.setting h context.scope indent node
  rw [hrule] at hvisit
  rw [render_eq, run_onMemory, ← hvisit]
  rfl

end WikiPress.Render.Walk
