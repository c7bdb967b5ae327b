import WikiPress.Proofs.Judgement
import WikiPress.Proofs.Markup

/-!
# What markup carries

A relation between nodes and what is written for them, if no markup takes it away: from the nodes that a rule
visits it is carried to the node itself.
-/

namespace WikiPress.Render

structure Carries (P : List Node → String → Prop) : Prop where
  nil : P [] ""
  append : ∀ {xs ys : List Node} {a b : String}, P xs a → P ys b → P (xs ++ ys) (a ++ b)
  of_shows : ∀ {xs : List Node} {a b : String}, P xs a → Shows a b → P xs b

def NodeCarries (captions : Captions) (Inv : Memory → Prop) (setting : Setting) (P : List Node → String → Prop)
    (node : Node) : Prop :=
  ∀ (scope : Scope) (place : Place) (indent : String),
    Holds Inv (visit captions setting scope place indent node) fun fragments => P [node] (String.join fragments)

section
variable {P : List Node → String → Prop} (hP : Carries P)
include hP

/-- Each node stands for the nodes that are visited from its place. -/
theorem Carries.gathers (from' : Node → List Node) :
    Gathers fun nodes texts => P (nodes.flatMap from') (String.join texts) where
  nil := hP.nil
  append h h' := by
    rw [List.flatMap_append, String.join_append]
    exact hP.append h h'

theorem Carries.gathersParts : Gathers fun nodes (parts : List (Node.Kind × String)) =>
    P nodes (String.join (parts.map Prod.snd)) where
  nil := hP.nil
  append h h' := by
    rw [List.map_append, String.join_append]
    exact hP.append h h'

variable {captions : Captions} {Inv : Memory → Prop} {setting : Setting}

section
variable {nodes : List Node} (h : ∀ node ∈ nodes, NodeCarries captions Inv setting P node)
include h

theorem all_carry (scope : Scope) (place : Place) (indent : String) :
    Holds Inv (visitAll captions setting scope place indent 0 nodes) fun fragments =>
      P nodes (String.join fragments) := by
  have hall := visitAll_holds (hP.gathers fun node => [node]) fun node hn i => h node hn scope (i :: place) indent
  simpa using hall

theorem parts_carry (scope : Scope) (place : Place) :
    Holds Inv (visitParts captions setting scope place 0 nodes) fun parts => P nodes (Cell.ofParts parts).text := by
  have hparts : Holds Inv (visitParts captions setting scope place 0 nodes) fun parts =>
      P nodes (String.join (parts.map Prod.snd)) := by
    refine visitParts_holds hP.gathersParts fun node hn i => ?_
    refine (h node hn scope (i :: place) "").mono fun fragments hf => ?_
    rwa [List.map_cons, List.map_nil, join_singleton]
  apply hparts.mono
  intro parts hf
  exact hP.of_shows hf (shows_cell parts)

theorem itemParts_carry (scope : Scope) (place : Place) (indent : String) :
    Holds Inv (visitItemParts captions setting scope place indent false 0 nodes) fun lines =>
      P nodes (itemMarkup lines) := by
  have hparts : Holds Inv (visitItemParts captions setting scope place indent false 0 nodes) fun lines =>
      P (nodes.flatMap fun node => [node]) (String.join lines) := by
    refine visitItemParts_holds (hP.gathers fun node => [node]) fun node hn i started => ?_
    refine (h node hn scope (i :: place) _).mono fun fragments hf => ?_
    rw [List.flatMap_singleton]
    exact hP.of_shows hf (shows_part scope indent started node.kind _)
  apply hparts.mono
  intro lines hl
  rw [List.flatMap_singleton'] at hl
  exact hP.of_shows hl (shows_lines lines)

end

theorem cells_carry {cells : List Node}
    (h : ∀ cell ∈ cells, ∀ node ∈ cell.content, NodeCarries captions Inv setting P node) (scope : Scope)
    (place : Place) :
    Holds Inv (visitCells captions setting scope place 0 cells) fun texts =>
      P (cells.flatMap Node.content) (rowMarkup texts) := by
  have hcells : Holds Inv (visitCells captions setting scope place 0 cells) fun texts =>
      P (cells.flatMap Node.content) (String.join texts) := by
    refine visitCells_holds (hP.gathers Node.content) fun cell hc i => ?_
    rw [visitCell_def]
    refine .bind (parts_carry hP (h cell hc) scope.cell (i :: place)) fun parts hp => .pure ?_
    rw [List.flatMap_singleton, join_singleton]
    exact hP.of_shows hp ((Shows.refl _).after _)
  apply hcells.mono
  intro texts ht
  have hjoin : Shows (String.join texts) (String.intercalate " " texts) :=
    .of_eq (Text.visible_intercalate (by decide) texts).symm
  exact hP.of_shows ht (hjoin.before _)

/-- **Markup carries.** What holds of all nodes below a node holds of the nodes that its rule visits and what the rule
makes of them, leaves and figures apart. -/
theorem visitBy_carries {scope : Scope} {indent : String} {node : Node} {rule : Rule}
    (hrule : Rule.ofNode setting scope indent node = rule) (hleaf : ∀ leaf, rule ≠ .leaf leaf)
    (hfigure : ∀ index media, rule ≠ .figure index media)
    (notices : ∀ notices, Holds Inv (noteAll notices) fun _ => True)
    (h : ∀ inner, Node.Below inner node → NodeCarries captions Inv setting P inner) (place : Place) :
    Holds Inv (visitBy captions setting scope place indent node rule) fun fragments =>
      P (rule.visits node) (String.join fragments) := by
  have inside : ∀ inner ∈ node.content, NodeCarries captions Inv setting P inner := fun inner hi => h inner (.child hi)
  have deeper : ∀ part ∈ node.content, ∀ inner ∈ part.content, NodeCarries captions Inv setting P inner :=
    fun part hp inner hi => h inner (.grandchild hi hp)
  cases rule with
  | leaf leaf => exact absurd rfl (hleaf leaf)
  | wrap markup =>
    refine .bind (all_carry hP inside scope place "") fun fragments hf => .pure ?_
    exact hP.of_shows hf (shows_wrap hrule _)
  | through margin ns => exact .bind (notices ns) fun _ _ => all_carry hP inside scope place margin
  | table =>
    refine .bind (visitRows_holds (hP.gathers rowVisits) fun row hr i => ?_) fun rows hs => .pure ?_
    · rw [visitRow_def]
      have below : ∀ cell ∈ row.content, ∀ inner ∈ cell.content, NodeCarries captions Inv setting P inner :=
        fun cell hc inner hi => h inner (.deeper (.grandchild hi hc) hr)
      refine .bind (cells_carry hP below scope (i :: place)) fun cells hc => .pure ?_
      rwa [List.flatMap_singleton, join_singleton]
    · rw [join_singleton]
      exact hP.of_shows hs (((Shows.refl _).after _).before _)
  | row =>
    refine .bind (cells_carry hP deeper scope place) fun cells hc => .pure ?_
    rwa [join_singleton]
  | cell =>
    refine .bind (parts_carry hP inside scope.cell place) fun parts hp => .pure ?_
    rwa [join_singleton]
  | list bulleted =>
    refine .bind (visitItems_holds (hP.gathers itemVisits) (fun item _ hk => ?_) fun item hi hk i => ?_)
      fun items hs => .pure (hP.of_shows hs (shows_list scope items))
    · rw [List.flatMap_singleton, itemVisits, if_neg hk]
      exact hP.nil
    · rw [visitItem_def, List.flatMap_singleton, itemVisits, if_pos hk]
      refine .bind (itemParts_carry hP (deeper item hi) _ (i :: place) indent) fun lines hl => .pure ?_
      rwa [join_singleton]
  | item =>
    refine .bind (itemParts_carry hP inside scope place indent) fun lines hl => .pure ?_
    rwa [join_singleton]
  | tasks =>
    refine .bind (visitTasks_holds (hP.gathers taskVisits) (fun task _ hk hk' => ?_) (fun task hi hk i => ?_)
      fun list hi hk i => ?_) fun items hs => .pure (hP.of_shows hs (shows_list scope items))
    · rw [List.flatMap_singleton, taskVisits, if_neg hk, if_neg hk']
      exact hP.nil
    · rw [visitContent_def, List.flatMap_singleton, taskVisits, if_pos hk]
      refine .bind (all_carry hP (deeper task hi) _ (i :: place) "") fun fragments hf => .pure ?_
      rw [join_singleton]
      exact hP.of_shows hf (shows_task _ indent task _)
    · have hne : list.kind ≠ .taskItem := by simp [hk]
      rw [List.flatMap_singleton, taskVisits, if_neg hne, if_pos hk]
      refine (inside list hi _ (i :: place) _).mono fun fragments hf => ?_
      rw [join_singleton]
      exact hP.of_shows hf (shows_trimLineStart _)
  | figure index media => exact absurd rfl (hfigure index media)

end

end WikiPress.Render
