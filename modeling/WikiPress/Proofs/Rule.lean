import WikiPress.Render.Visit

/-!
# Rules and visits

A node is rendered by its rule. What a rule says of its node, and which nodes it visits.
-/

namespace WikiPress.Render

/-! ## A node by its rule -/

section
variable (captions : Captions) (setting : Setting)

def visitBy (scope : Scope) (place : Place) (indent : String) (node : Node) : Rule → RenderM (List String)
  | .leaf leaf => renderLeaf setting scope node leaf
  | .wrap markup => return markup (String.join (← visitAll captions setting scope place "" 0 node.content))
  | .through indent notices => do
    noteAll notices
    visitAll captions setting scope place indent 0 node.content
  | .table => return [tableMarkup (← visitRows captions setting scope place 0 node.content)]
  | .row => return [rowMarkup (← visitCells captions setting scope place 0 node.content)]
  | .cell => return [(Cell.ofParts (← visitParts captions setting scope.cell place 0 node.content)).text]
  | .list bulleted =>
    return listMarkup scope (← visitItems captions setting (scope.inList bulleted) place indent 0 node.content)
  | .item => return [itemMarkup (← visitItemParts captions setting scope place indent false 0 node.content)]
  | .tasks =>
    return listMarkup scope (← visitTasks captions setting (scope.inList true) place indent 0 node.content)
  | .figure index media => do
    let caption ← visitCaption captions setting scope place 0 node.content
    captions.mark caption
    let image := "\n" ++ imageBlock setting.options media (caption.map Prod.snd)
    return image :: (← visitOthers captions setting scope place (captions.left node.content index) 0 node.content)

/-- A node that is not left out is rendered by its rule. -/
theorem visit_def (scope : Scope) (place : Place) (indent : String) (node : Node) :
    visit captions setting scope place indent node = (do
      if ← captions.take place then return []
      visitBy captions setting scope place indent node (Rule.ofNode setting scope indent node)) := by
  cases node
  rw [visit]
  refine congrArg (captions.take place >>= ·) (funext fun skipped => ?_)
  cases skipped with
  | true => rfl
  | false =>
    simp only
    generalize Rule.ofNode setting scope indent _ = rule
    cases rule <;> rfl

theorem run_visit {place : Place} {memory : Memory} (h : memory.skipped ≠ some place) (scope : Scope)
    (indent : String) (node : Node) :
    (visit .marked setting scope place indent node).run memory =
      (visitBy .marked setting scope place indent node (Rule.ofNode setting scope indent node)).run memory := by
  have ht : takeSkip place memory = (false, memory) := if_neg h
  rw [visit_def]
  show (ite ((takeSkip place memory).1 = true) _ _ : RenderM (List String)) (takeSkip place memory).2 = _
  rw [ht]
  rfl

variable {setting}

theorem ofMacro_cases {position : Macro.Position} {node : Node} {rule : Rule}
    (h : Rule.ofMacro setting position node = rule) :
    (∃ handler, setting.macros.find? position (Macro.keyOf node) = some handler ∧
      rule = .leaf (.handled position handler)) ∨
    (setting.macros.find? position (Macro.keyOf node) = none ∧
      rule = .through "" [.macroWithoutHandler position.name (Macro.keyOf node)]) := by
  cases hf : setting.macros.find? position (Macro.keyOf node) with
  | none => exact Or.inr ⟨rfl, by rw [← h]; simp only [Rule.ofMacro, hf]⟩
  | some handler => exact Or.inl ⟨handler, rfl, by rw [← h]; simp only [Rule.ofMacro, hf]⟩

/-- What a rule says of its node. -/
def Rule.Fits (node : Node) : Rule → Prop
  | .table => node.kind = .table
  | .row => node.kind = .tableRow
  | .list _ => node.kind = .bulletList ∨ node.kind = .orderedList
  | .tasks => node.kind = .taskList
  | .figure index media => node.kind = .mediaSingle ∧ firstMedia? node.content = some (index, media)
  | _ => True

theorem ofNode_fits {scope : Scope} {indent : String} {node : Node} {rule : Rule}
    (hr : Rule.ofNode setting scope indent node = rule) : rule.Fits node := by
  unfold Rule.ofNode at hr
  split at hr
  case h_11 hk =>
    split at hr
    · exact hr ▸ trivial
    · rename_i hm
      exact hr ▸ ⟨hk, hm⟩
  case h_13 hk => exact hr ▸ Or.inl hk
  case h_14 hk => exact hr ▸ Or.inr hk
  case h_18 | h_19 => rcases ofMacro_cases hr with ⟨_, -, rfl⟩ | ⟨-, rfl⟩ <;> trivial
  all_goals
    subst hr
    first | assumption | trivial

theorem firstMedia?_getElem? {index : Nat} {media : Node} : ∀ {nodes : List Node},
    firstMedia? nodes = some (index, media) → nodes[index]? = some media ∧ media.kind = .media
  | [], h => nomatch h
  | node :: nodes, h => by
    unfold firstMedia? at h
    by_cases hk : node.kind = .media
    · rw [if_pos hk] at h
      cases h
      exact ⟨rfl, hk⟩
    · rw [if_neg hk, Option.map_eq_some_iff] at h
      obtain ⟨⟨i, m⟩, hm, he⟩ := h
      cases he
      have rest := firstMedia?_getElem? hm
      exact rest

theorem margin_of_through {scope : Scope} {indent margin : String} {node : Node} {notices : List Notice}
    (hr : Rule.ofNode setting scope indent node = .through margin notices) : margin = indent ∨ margin = "" := by
  unfold Rule.ofNode at hr
  split at hr
  case h_11 => split at hr <;> cases hr
  case h_18 | h_19 =>
    rcases ofMacro_cases hr with ⟨_, -, h⟩ | ⟨-, h⟩
    · cases h
    · exact Or.inr (Rule.through.inj h).1
  all_goals
    cases hr
    try exact Or.inl rfl

theorem kind_ne_text {scope : Scope} {indent : String} {node : Node}
    (h : Rule.ofNode setting scope indent node ≠ .leaf .text) : node.kind ≠ .text := by
  intro hk
  exact h (by rw [Rule.ofNode, hk])

end

/-! ## Visited nodes -/

def itemVisits (node : Node) : List Node :=
  if node.kind = .listItem then node.content else []

def taskVisits (node : Node) : List Node :=
  if node.kind = .taskItem then node.content else if node.kind = .taskList then [node] else []

def rowVisits (node : Node) : List Node :=
  node.content.flatMap Node.content

def captionVisits : List Node → List Node
  | [] => []
  | node :: nodes => if node.kind = .caption then node.content else captionVisits nodes

def otherVisits (left : Nat → Bool) (i : Nat) : List Node → List Node
  | [] => []
  | node :: nodes => (if left i then [] else [node]) ++ otherVisits left (i + 1) nodes

/-- The nodes that a rule visits, a caption that titles a figure left out. -/
def Rule.visits (node : Node) : Rule → List Node
  | .leaf _ => []
  | .wrap _ | .through _ _ | .cell | .item => node.content
  | .table => node.content.flatMap rowVisits
  | .row => rowVisits node
  | .list _ => node.content.flatMap itemVisits
  | .tasks => node.content.flatMap taskVisits
  | .figure index _ =>
    captionVisits node.content ++
      otherVisits (fun i => i = index || firstCaption? 0 node.content = some i) 0 node.content

end WikiPress.Render
