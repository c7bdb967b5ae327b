import WikiPress.Proofs.Below
import WikiPress.Proofs.Rule
import WikiPress.Proofs.Steps

/-!
# Judgements about visits

What is proved of every visit is proved step by step. A judgement is what holds of single steps and of one
step after another; it may compare two visits that treat captions differently. From single nodes it extends
to the lists that a visit goes through, and to every node that is no figure.
-/

namespace WikiPress.Render

/-! ## Judgements -/

/-- A judgement about two steps, the nodes that they visit, and what they give. -/
structure Judgement where
  first : Captions
  second : Captions
  rel : {α : Type} → RenderM α → RenderM α → List Node → (α → Prop) → Prop
  pure : ∀ {α : Type} {Q : α → Prop} {a : α}, Q a → rel (pure a) (pure a) [] Q
  bind : ∀ {α β : Type} {x y : RenderM α} {f g : α → RenderM β} {v w : List Node} {Q : α → Prop} {R : β → Prop},
    rel x y v Q → (∀ a, Q a → rel (f a) (g a) w R) → rel (x >>= f) (y >>= g) (v ++ w) R
  mono : ∀ {α : Type} {x y : RenderM α} {v : List Node} {Q R : α → Prop},
    rel x y v Q → (∀ a, Q a → R a) → rel x y v R

theorem Judgement.map {α β : Type} (J : Judgement) {x y : RenderM α} {f : α → β} {v : List Node} {Q : α → Prop}
    {R : β → Prop} (h : J.rel x y v Q) (hf : ∀ a, Q a → R (f a)) :
    J.rel (do return f (← x)) (do return f (← y)) v R := by
  have := J.bind h fun a ha => J.pure (hf a ha)
  rwa [List.append_nil] at this

/-- A relation between nodes and what is written for them that is built up node by node. -/
structure Gathers {β : Type} (R : List Node → List β → Prop) : Prop where
  nil : R [] []
  append : ∀ {xs ys as bs}, R xs as → R ys bs → R (xs ++ ys) (as ++ bs)

theorem Gathers.trivial {β : Type} : Gathers fun (_ : List Node) (_ : List β) => True :=
  ⟨True.intro, fun _ _ => True.intro⟩

section
variable (J : Judgement) {setting : Setting} {scope : Scope} {place : Place} {nodes : List Node}

theorem visitAll_rel {indent : String} {R : List Node → List String → Prop} (hR : Gathers R)
    (h : ∀ node ∈ nodes, ∀ i, J.rel (visit J.first setting scope (i :: place) indent node)
      (visit J.second setting scope (i :: place) indent node) [node] (R [node])) (i : Nat) :
    J.rel (visitAll J.first setting scope place indent i nodes) (visitAll J.second setting scope place indent i nodes)
      nodes (R nodes) := by
  induction nodes generalizing i with
  | nil => exact J.pure hR.nil
  | cons node nodes ih =>
    have first := h node (List.mem_cons_self ..) i
    have rest := ih (fun n hn => h n (List.mem_cons_of_mem _ hn)) (i + 1)
    apply J.bind first
    intro fragments hf
    apply J.map rest
    intro others hr
    exact hR.append hf hr

/-- A node that is left out may be counted among those with nothing to write. -/
theorem visitOthers_rel {left : Nat → Bool} {R : List Node → List String → Prop} (hR : Gathers R)
    (hn : ∀ node, R [node] []) (i : Nat)
    (h : ∀ node ∈ nodes, ∀ j < i + nodes.length, J.rel (visit J.first setting scope (j :: place) "" node)
      (visit J.second setting scope (j :: place) "" node) [node] (R [node])) :
    J.rel (visitOthers J.first setting scope place left i nodes) (visitOthers J.second setting scope place left i nodes)
      (otherVisits left i nodes) (R nodes) := by
  induction nodes generalizing i with
  | nil => exact J.pure hR.nil
  | cons node nodes ih =>
    have rest := ih (i + 1) fun n hn j hj =>
      h n (List.mem_cons_of_mem _ hn) j (by simp only [List.length_cons]; omega)
    have first := h node (List.mem_cons_self ..) i (by simp)
    unfold visitOthers otherVisits
    by_cases hl : left i = true
    · simp only [if_pos hl]
      apply J.bind (J.pure (hn node))
      intro fragments hf
      apply J.map rest
      intro others hr
      exact hR.append hf hr
    · simp only [if_neg hl]
      apply J.bind first
      intro fragments hf
      apply J.map rest
      intro others hr
      exact hR.append hf hr

theorem visitContent_rel {Q : String → Prop} {node : Node}
    (h : J.rel (visitAll J.first setting scope place "" 0 node.content)
      (visitAll J.second setting scope place "" 0 node.content) node.content fun fragments =>
        Q (String.join fragments)) :
    J.rel (visitContent J.first setting scope place node) (visitContent J.second setting scope place node) node.content
      Q := by
  rw [visitContent_def, visitContent_def]
  exact J.map h fun _ hf => hf

theorem visitCaption_rel {Q : String → Prop}
    (h : ∀ node ∈ nodes, ∀ i, J.rel (visitContent J.first setting scope (i :: place) node)
      (visitContent J.second setting scope (i :: place) node) node.content Q) (i : Nat) :
    J.rel (visitCaption J.first setting scope place i nodes) (visitCaption J.second setting scope place i nodes)
      (captionVisits nodes) fun caption => ∀ c, caption = some c → Q c.2 := by
  induction nodes generalizing i with
  | nil => exact J.pure fun _ hc => nomatch hc
  | cons node nodes ih =>
    unfold visitCaption captionVisits
    by_cases hk : node.kind = .caption
    · simp only [if_pos hk]
      apply J.map (h node (List.mem_cons_self ..) i)
      intro text ht c hc
      cases hc
      exact ht
    · simp only [if_neg hk]
      exact ih (fun n hn => h n (List.mem_cons_of_mem _ hn)) (i + 1)

theorem visitItems_rel {indent : String} {R : List Node → List String → Prop} (hR : Gathers R)
    (hn : ∀ node ∈ nodes, node.kind ≠ .listItem → R [node] [])
    (h : ∀ node ∈ nodes, node.kind = .listItem → ∀ i, J.rel (visitItem J.first setting scope (i :: place) indent node)
      (visitItem J.second setting scope (i :: place) indent node) node.content fun item => R [node] [item]) (i : Nat) :
    J.rel (visitItems J.first setting scope place indent i nodes)
      (visitItems J.second setting scope place indent i nodes) (nodes.flatMap itemVisits) (R nodes) := by
  induction nodes generalizing i with
  | nil => exact J.pure hR.nil
  | cons node nodes ih =>
    have rest := ih (fun n hm => hn n (List.mem_cons_of_mem _ hm)) (fun n hm => h n (List.mem_cons_of_mem _ hm))
      (i + 1)
    rw [List.flatMap_cons]
    unfold visitItems itemVisits
    by_cases hk : node.kind = .listItem
    · simp only [if_pos hk]
      apply J.bind (h node (List.mem_cons_self ..) hk i)
      intro item hi
      apply J.map rest
      intro items hr
      exact hR.append hi hr
    · simp only [if_neg hk]
      apply J.mono rest
      intro items hr
      exact hR.append (hn node (List.mem_cons_self ..) hk) hr

theorem visitItemParts_rel {indent : String} {R : List Node → List String → Prop} (hR : Gathers R)
    (h : ∀ node ∈ nodes, ∀ i started,
      J.rel (visit J.first setting scope (i :: place) (partIndent indent started node.kind) node)
        (visit J.second setting scope (i :: place) (partIndent indent started node.kind) node) [node] fun fragments =>
          R [node] (partLines scope indent started node.kind (String.join fragments)))
    (started : Bool) (i : Nat) :
    J.rel (visitItemParts J.first setting scope place indent started i nodes)
      (visitItemParts J.second setting scope place indent started i nodes) nodes (R nodes) := by
  induction nodes generalizing started i with
  | nil => exact J.pure hR.nil
  | cons node nodes ih =>
    apply J.bind (h node (List.mem_cons_self ..) i started)
    intro fragments hf
    apply J.map (ih (fun n hn => h n (List.mem_cons_of_mem _ hn)) _ (i + 1))
    intro rest hr
    exact hR.append hf hr

theorem visitTasks_rel {indent : String} {R : List Node → List String → Prop} (hR : Gathers R)
    (hn : ∀ node ∈ nodes, node.kind ≠ .taskItem → node.kind ≠ .taskList → R [node] [])
    (ht : ∀ node ∈ nodes, node.kind = .taskItem → ∀ i, J.rel (visitContent J.first setting scope (i :: place) node)
      (visitContent J.second setting scope (i :: place) node) node.content fun text =>
        R [node] [taskMarkup scope indent node text])
    (hl : ∀ node ∈ nodes, node.kind = .taskList → ∀ i,
      J.rel (visit J.first setting scope (i :: place) (indent ++ "  ") node)
        (visit J.second setting scope (i :: place) (indent ++ "  ") node) [node] fun fragments =>
          R [node] [Text.trimLineStart (String.join fragments)]) (i : Nat) :
    J.rel (visitTasks J.first setting scope place indent i nodes)
      (visitTasks J.second setting scope place indent i nodes) (nodes.flatMap taskVisits) (R nodes) := by
  induction nodes generalizing i with
  | nil => exact J.pure hR.nil
  | cons node nodes ih =>
    have hm := List.mem_cons_self (a := node) (l := nodes)
    have rest := ih (fun n hm => hn n (List.mem_cons_of_mem _ hm)) (fun n hm => ht n (List.mem_cons_of_mem _ hm))
      (fun n hm => hl n (List.mem_cons_of_mem _ hm)) (i + 1)
    rw [List.flatMap_cons]
    unfold visitTasks taskVisits
    by_cases hk : node.kind = .taskItem
    · simp only [if_pos hk]
      apply J.bind (ht node hm hk i)
      intro text hi
      apply J.map rest
      intro items hr
      exact hR.append hi hr
    simp only [if_neg hk]
    by_cases hk' : node.kind = .taskList
    · simp only [if_pos hk']
      apply J.bind (hl node hm hk' i)
      intro fragments hi
      apply J.map rest
      intro items hr
      exact hR.append hi hr
    · simp only [if_neg hk']
      apply J.mono rest
      intro items hr
      exact hR.append (hn node hm hk hk') hr

theorem visitRows_rel {R : List Node → List String → Prop} (hR : Gathers R)
    (h : ∀ node ∈ nodes, ∀ i, J.rel (visitRow J.first setting scope (i :: place) node)
      (visitRow J.second setting scope (i :: place) node) (rowVisits node) fun row => R [node] [row]) (i : Nat) :
    J.rel (visitRows J.first setting scope place i nodes) (visitRows J.second setting scope place i nodes)
      (nodes.flatMap rowVisits) (R nodes) := by
  induction nodes generalizing i with
  | nil => exact J.pure hR.nil
  | cons node nodes ih =>
    have first := h node (List.mem_cons_self ..) i
    have rest := ih (fun n hn => h n (List.mem_cons_of_mem _ hn)) (i + 1)
    rw [List.flatMap_cons]
    apply J.bind first
    intro row hf
    apply J.map rest
    intro rows hr
    exact hR.append hf hr

theorem visitCells_rel {R : List Node → List String → Prop} (hR : Gathers R)
    (h : ∀ node ∈ nodes, ∀ i, J.rel (visitCell J.first setting scope (i :: place) node)
      (visitCell J.second setting scope (i :: place) node) node.content fun cell => R [node] [Cell.markup node cell])
    (i : Nat) :
    J.rel (visitCells J.first setting scope place i nodes) (visitCells J.second setting scope place i nodes)
      (nodes.flatMap Node.content) (R nodes) := by
  induction nodes generalizing i with
  | nil => exact J.pure hR.nil
  | cons node nodes ih =>
    have first := h node (List.mem_cons_self ..) i
    have rest := ih (fun n hn => h n (List.mem_cons_of_mem _ hn)) (i + 1)
    rw [List.flatMap_cons]
    apply J.bind first
    intro cell hf
    apply J.map rest
    intro cells hr
    exact hR.append hf hr

theorem visitParts_rel {R : List Node → List (Node.Kind × String) → Prop} (hR : Gathers R)
    (h : ∀ node ∈ nodes, ∀ i, J.rel (visit J.first setting scope (i :: place) "" node)
      (visit J.second setting scope (i :: place) "" node) [node] fun fragments =>
        R [node] [(node.kind, String.join fragments)]) (i : Nat) :
    J.rel (visitParts J.first setting scope place i nodes) (visitParts J.second setting scope place i nodes)
      nodes (R nodes) := by
  induction nodes generalizing i with
  | nil => exact J.pure hR.nil
  | cons node nodes ih =>
    have first := h node (List.mem_cons_self ..) i
    have rest := ih (fun n hn => h n (List.mem_cons_of_mem _ hn)) (i + 1)
    apply J.bind first
    intro fragments hf
    apply J.map rest
    intro parts hr
    exact hR.append hf hr

end

/-! ## Rules -/

section
variable (J : Judgement) {setting : Setting}

/-- A judgement on all nodes below is one on a node that is no figure. -/
theorem visitBy_rel (scope : Scope) (place : Place) (indent : String) {node : Node} {rule : Rule}
    (below : ∀ inner, Node.Below inner node → ∀ scope place' indent, place <:+ place' →
      J.rel (visit J.first setting scope place' indent inner) (visit J.second setting scope place' indent inner) [inner]
        fun _ => True)
    (leaves : ∀ leaf, rule = .leaf leaf →
      J.rel (renderLeaf setting scope node leaf) (renderLeaf setting scope node leaf) [] fun _ => True)
    (notices : ∀ notices, J.rel (noteAll notices) (noteAll notices) [] fun _ => True)
    (hr : ∀ index media, rule ≠ .figure index media) :
    J.rel (visitBy J.first setting scope place indent node rule) (visitBy J.second setting scope place indent node rule)
      (rule.visits node) fun _ => True := by
  have up (i : Nat) {place' : Place} (h : place <:+ place') : place <:+ i :: place' := h.trans (List.suffix_cons i _)
  have all {node' : Node} (hb : ∀ inner ∈ node'.content, Node.Below inner node) (scope : Scope) (place' : Place)
      (indent : String) (h : place <:+ place') :
      J.rel (visitAll J.first setting scope place' indent 0 node'.content)
        (visitAll J.second setting scope place' indent 0 node'.content) node'.content fun _ => True :=
    visitAll_rel J .trivial (fun inner hi i => below inner (hb inner hi) scope _ indent (up i h)) 0
  have parts {node' : Node} (hb : ∀ inner ∈ node'.content, Node.Below inner node) (scope : Scope) (place' : Place)
      (h : place <:+ place') :
      J.rel (visitParts J.first setting scope place' 0 node'.content)
        (visitParts J.second setting scope place' 0 node'.content) node'.content fun _ => True :=
    visitParts_rel J .trivial (fun inner hi i => below inner (hb inner hi) scope _ "" (up i h)) 0
  have itemParts {node' : Node} (hb : ∀ inner ∈ node'.content, Node.Below inner node) (scope : Scope) (place' : Place)
      (indent : String) (h : place <:+ place') :
      J.rel (visitItemParts J.first setting scope place' indent false 0 node'.content)
        (visitItemParts J.second setting scope place' indent false 0 node'.content) node'.content fun _ => True :=
    visitItemParts_rel J .trivial (fun inner hi i started => below inner (hb inner hi) scope _ _ (up i h)) false 0
  have cells {node' : Node} (hb : ∀ cell ∈ node'.content, ∀ inner ∈ cell.content, Node.Below inner node)
      (place' : Place) (h : place <:+ place') :
      J.rel (visitCells J.first setting scope place' 0 node'.content)
        (visitCells J.second setting scope place' 0 node'.content) (rowVisits node') fun _ => True := by
    refine visitCells_rel J .trivial (fun cell hc i => ?_) 0
    rw [visitCell_def, visitCell_def]
    exact J.map (parts (hb cell hc) scope.cell _ (up i h)) fun _ _ => trivial
  have hplace : place <:+ place := List.suffix_refl place
  cases rule with
  | leaf leaf => exact leaves leaf rfl
  | wrap markup => exact J.map (all (fun _ => .child) scope place "" hplace) fun _ _ => trivial
  | through margin ns =>
    exact J.bind (notices ns) fun _ _ => all (fun _ => .child) scope place margin hplace
  | table =>
    refine J.map (visitRows_rel J .trivial (fun row hr i => ?_) 0) fun _ _ => trivial
    rw [visitRow_def, visitRow_def]
    exact J.map (cells (fun cell hc inner hi => .deeper (.grandchild hi hc) hr) _ (up i hplace)) fun _ _ => trivial
  | row => exact J.map (cells (fun cell hc inner hi => .grandchild hi hc) place hplace) fun _ _ => trivial
  | cell => exact J.map (parts (fun _ => .child) scope.cell place hplace) fun _ _ => trivial
  | list bulleted =>
    refine J.map (visitItems_rel J .trivial (fun _ _ _ => trivial) (fun item hi _ i => ?_) 0) fun _ _ => trivial
    rw [visitItem_def, visitItem_def]
    exact J.map (itemParts (fun inner h => .grandchild h hi) _ _ indent (up i hplace)) fun _ _ => trivial
  | item => exact J.map (itemParts (fun _ => .child) scope place indent hplace) fun _ _ => trivial
  | tasks =>
    refine J.map (visitTasks_rel J .trivial (fun _ _ _ _ => trivial) (fun task ht _ i => ?_)
      (fun list hl _ i => below list (.child hl) _ _ _ (up i hplace)) 0) fun _ _ => trivial
    exact visitContent_rel J (all (fun inner h => .grandchild h ht) _ _ "" (up i hplace))
  | figure index media => exact absurd rfl (hr index media)

/-- The same of a figure, where both visits leave out the same and marks are of no account. -/
theorem visitBy_figure_rel (scope : Scope) (place : Place) (indent : String) (media : Node) {node : Node} {index : Nat}
    {left : Nat → Bool}
    (below : ∀ inner, Node.Below inner node → ∀ scope place' indent, place <:+ place' →
      J.rel (visit J.first setting scope place' indent inner) (visit J.second setting scope place' indent inner) [inner]
        fun _ => True)
    (marks : ∀ caption, J.rel (J.first.mark caption) (J.second.mark caption) [] fun _ => True)
    (hleft : J.first.left node.content index = left) (hleft' : J.second.left node.content index = left) :
    J.rel (visitBy J.first setting scope place indent node (.figure index media))
      (visitBy J.second setting scope place indent node (.figure index media))
      (captionVisits node.content ++ otherVisits left 0 node.content) fun _ => True := by
  have up (i : Nat) {place' : Place} (h : place <:+ place') : place <:+ i :: place' := h.trans (List.suffix_cons i _)
  have hplace : place <:+ place := List.suffix_refl place
  have caption : J.rel (visitCaption J.first setting scope place 0 node.content)
      (visitCaption J.second setting scope place 0 node.content) (captionVisits node.content) _ :=
    visitCaption_rel J (Q := fun _ => True) (fun part hp i => visitContent_rel J (visitAll_rel J .trivial
      (fun inner hi j => below inner (.grandchild hi hp) scope _ "" (up j (up i hplace))) 0)) 0
  have others : J.rel (visitOthers J.first setting scope place left 0 node.content)
      (visitOthers J.second setting scope place left 0 node.content) (otherVisits left 0 node.content) _ :=
    visitOthers_rel J .trivial (fun _ => trivial) 0 fun inner hi j _ => below inner (.child hi) scope _ "" (up j hplace)
  simp only [visitBy, hleft, hleft']
  refine J.bind caption fun text _ => ?_
  exact J.bind (marks text) fun _ _ => J.map others fun _ _ => trivial

end

/-! ## Steps that keep an invariant -/

/-- The step keeps the invariant `P` of the memory, and what it gives satisfies `Q`. -/
def Holds {α : Type} (P : Memory → Prop) (step : RenderM α) (Q : α → Prop) : Prop :=
  ∀ memory, P memory → Q (step.run memory).1 ∧ P (step.run memory).2

namespace Holds

variable {α β : Type} {P : Memory → Prop}

theorem pure {Q : α → Prop} {a : α} (h : Q a) : Holds P (pure a) Q :=
  fun _ hm => ⟨h, hm⟩

theorem bind {step : RenderM α} {next : α → RenderM β} {Q : α → Prop} {R : β → Prop}
    (h : Holds P step Q) (hn : ∀ a, Q a → Holds P (next a) R) : Holds P (step >>= next) R := by
  intro memory hm
  obtain ⟨ha, hm'⟩ := h memory hm
  exact hn _ ha _ hm'

theorem mono {step : RenderM α} {Q R : α → Prop} (h : Holds P step Q) (hQ : ∀ a, Q a → R a) :
    Holds P step R :=
  fun memory hm => ⟨hQ _ (h memory hm).1, (h memory hm).2⟩

end Holds

/-- Nothing is asked of the memory. -/
abbrev Gives {α : Type} (step : RenderM α) (Q : α → Prop) : Prop :=
  Holds (fun _ => True) step Q

theorem gives_of_run {α : Type} {step : RenderM α} {Q : α → Prop} (h : ∀ memory, Q (step.run memory).1) :
    Gives step Q :=
  fun memory _ => ⟨h memory, trivial⟩

/-- An invariant is a judgement about one visit. -/
abbrev Judgement.holds (captions : Captions) (P : Memory → Prop) : Judgement where
  first := captions
  second := captions
  rel x _ _ Q := Holds P x Q
  pure := Holds.pure
  bind := Holds.bind
  mono := Holds.mono

section
variable {captions : Captions} {P : Memory → Prop} {setting : Setting} {scope : Scope} {place : Place}
  {nodes : List Node} {indent : String} {R : List Node → List String → Prop}

theorem visitAll_holds (hR : Gathers R)
    (h : ∀ node ∈ nodes, ∀ i, Holds P (visit captions setting scope (i :: place) indent node) (R [node])) :
    Holds P (visitAll captions setting scope place indent 0 nodes) (R nodes) :=
  visitAll_rel (.holds captions P) hR h 0

theorem visitOthers_holds (hR : Gathers R) (hn : ∀ node, R [node] []) {left : Nat → Bool}
    (h : ∀ node ∈ nodes, ∀ i, Holds P (visit captions setting scope (i :: place) "" node) (R [node])) (i : Nat) :
    Holds P (visitOthers captions setting scope place left i nodes) (R nodes) :=
  visitOthers_rel (.holds captions P) hR hn i fun node hm j _ => h node hm j

theorem visitCaption_holds {Q : String → Prop}
    (h : ∀ node ∈ nodes, ∀ i, Holds P (visitContent captions setting scope (i :: place) node) Q) :
    Holds P (visitCaption captions setting scope place 0 nodes) fun caption => ∀ c, caption = some c → Q c.2 :=
  visitCaption_rel (.holds captions P) h 0

theorem visitItems_holds (hR : Gathers R) (hn : ∀ node ∈ nodes, node.kind ≠ .listItem → R [node] [])
    (h : ∀ node ∈ nodes, node.kind = .listItem → ∀ i,
      Holds P (visitItem captions setting scope (i :: place) indent node) fun item => R [node] [item]) :
    Holds P (visitItems captions setting scope place indent 0 nodes) (R nodes) :=
  visitItems_rel (.holds captions P) hR hn h 0

theorem visitItemParts_holds (hR : Gathers R)
    (h : ∀ node ∈ nodes, ∀ i started,
      Holds P (visit captions setting scope (i :: place) (partIndent indent started node.kind) node) fun fragments =>
        R [node] (partLines scope indent started node.kind (String.join fragments))) :
    Holds P (visitItemParts captions setting scope place indent false 0 nodes) (R nodes) :=
  visitItemParts_rel (.holds captions P) hR h false 0

theorem visitTasks_holds (hR : Gathers R)
    (hn : ∀ node ∈ nodes, node.kind ≠ .taskItem → node.kind ≠ .taskList → R [node] [])
    (ht : ∀ node ∈ nodes, node.kind = .taskItem → ∀ i,
      Holds P (visitContent captions setting scope (i :: place) node) fun text =>
        R [node] [taskMarkup scope indent node text])
    (hl : ∀ node ∈ nodes, node.kind = .taskList → ∀ i,
      Holds P (visit captions setting scope (i :: place) (indent ++ "  ") node) fun fragments =>
        R [node] [Text.trimLineStart (String.join fragments)]) :
    Holds P (visitTasks captions setting scope place indent 0 nodes) (R nodes) :=
  visitTasks_rel (.holds captions P) hR hn ht hl 0

theorem visitRows_holds (hR : Gathers R)
    (h : ∀ node ∈ nodes, ∀ i, Holds P (visitRow captions setting scope (i :: place) node) fun row => R [node] [row]) :
    Holds P (visitRows captions setting scope place 0 nodes) (R nodes) :=
  visitRows_rel (.holds captions P) hR h 0

theorem visitCells_holds (hR : Gathers R)
    (h : ∀ node ∈ nodes, ∀ i, Holds P (visitCell captions setting scope (i :: place) node) fun cell =>
      R [node] [Cell.markup node cell]) :
    Holds P (visitCells captions setting scope place 0 nodes) (R nodes) :=
  visitCells_rel (.holds captions P) hR h 0

theorem visitParts_holds {R : List Node → List (Node.Kind × String) → Prop} (hR : Gathers R)
    (h : ∀ node ∈ nodes, ∀ i, Holds P (visit captions setting scope (i :: place) "" node) fun fragments =>
      R [node] [(node.kind, String.join fragments)]) :
    Holds P (visitParts captions setting scope place 0 nodes) (R nodes) :=
  visitParts_rel (.holds captions P) hR h 0

end

end WikiPress.Render
