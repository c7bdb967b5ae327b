import WikiPress.Proofs.Passage

/-!
# What is heard

The anchors and the mentions in the spots of a document. Rendering a complete document adds them to the memory in
order, and it may be told at a place which anchors it has met before: that changes nothing.
-/

namespace WikiPress.Render

/-! ## What a node says -/

/-- The text of the parameter of a macro that has no name. -/
def unnamedParameter? (node : Node) : Option String := do
  let parameters ← node.attrs.lookup "parameters"
  let macroParams ← parameters.get? "macroParams"
  let parameter ← macroParams.get? ""
  let value ← parameter.get? "value"
  value.text?

/-- The name of an anchor: what is in its parameter without a name, without the blanks around it. -/
def anchorName? (node : Node) : Option String :=
  if node.kind = .inlineMacro ∧ node.attrs.lookup "extensionKey" = some (.string "anchor") then
    ((unnamedParameter? node).map Text.trim).filter (· ≠ "")
  else none

/-- The name and the id of a mentioned user, if there are both. -/
def mentionOf? (node : Node) : Option (String × String) :=
  let id := (node.text? "id").getD ""
  if node.kind = .mention ∧ mentionedName node ≠ "" ∧ id ≠ "" then some (mentionedName node, id) else none

/-- A user is mentioned by a name and an id. The name is what stands behind all signs that lead the text. -/
structure Mentions (node : Node) (name id : String) : Prop where
  kind : node.kind = .mention
  id_eq : node.attrs.lookup "id" = some (.string id)
  id_ne : id ≠ ""
  text_eq : ∃ n, node.attrs.lookup "text" = some (.string (.ofList (List.replicate n '@') ++ name))
  unsigned : name.toList.head? ≠ some '@'
  name_ne : name ≠ ""

theorem getD_empty_eq_iff {found : Option String} {s : String} (h : s ≠ "") : found.getD "" = s ↔ found = some s := by
  rw [Option.getD_eq_iff, or_iff_left fun hnone => h hnone.2.symm]

theorem dropWhile_eq_iff {a : Char} {cs rest : List Char} :
    cs.dropWhile (· == a) = rest ↔ (∃ n, cs = List.replicate n a ++ rest) ∧ rest.head? ≠ some a := by
  constructor
  · rintro rfl
    have hsigns : cs.takeWhile (· == a) = List.replicate (cs.takeWhile (· == a)).length a :=
      List.eq_replicate_iff.2 ⟨rfl, fun c hc => eq_of_beq (List.all_eq_true.1 List.all_takeWhile c hc)⟩
    refine ⟨⟨_, hsigns ▸ List.takeWhile_append_dropWhile.symm⟩, fun hhead => ?_⟩
    have hother := List.head?_dropWhile_not (· == a) cs
    simp [hhead] at hother
  · rintro ⟨⟨n, rfl⟩, hhead⟩
    rw [List.dropWhile_append_of_pos fun c hc => beq_iff_eq.2 (List.eq_of_mem_replicate hc)]
    cases rest with
    | nil => rfl
    | cons c rest => exact List.dropWhile_cons_of_neg (by simpa using hhead)

theorem mentionedName_eq_iff {node : Node} {name : String} (h : name ≠ "") : mentionedName node = name ↔
    (∃ n, node.attrs.lookup "text" = some (.string (.ofList (List.replicate n '@') ++ name))) ∧
      name.toList.head? ≠ some '@' := by
  have htext (n : Nat) : ((node.text? "text").getD "").toList = List.replicate n '@' ++ name.toList ↔
      node.attrs.lookup "text" = some (.string (.ofList (List.replicate n '@') ++ name)) := by
    have hne : String.ofList (List.replicate n '@') ++ name ≠ "" := by simp [h]
    rw [← Json.Fields.text?_eq_some, ← Node.text?, ← getD_empty_eq_iff hne, ← String.toList_inj, String.toList_append,
      String.toList_ofList]
  rw [mentionedName, ← String.toList_inj, String.toList_ofList, dropWhile_eq_iff, exists_congr htext]

theorem mentionOf?_eq_some {node : Node} {name id : String} :
    mentionOf? node = some (name, id) ↔ Mentions node name id := by
  have hid (h : id ≠ "") : (node.text? "id").getD "" = id ↔ node.attrs.lookup "id" = some (.string id) := by
    rw [getD_empty_eq_iff h, Node.text?, Json.Fields.text?_eq_some]
  simp only [mentionOf?, Option.ite_none_right_eq_some, Option.some.injEq, Prod.mk.injEq]
  constructor
  · rintro ⟨⟨hkind, hname, hne⟩, rfl, rfl⟩
    obtain ⟨htext, hsign⟩ := (mentionedName_eq_iff hname).1 rfl
    exact ⟨hkind, (hid hne).1 rfl, hne, htext, hsign, hname⟩
  · rintro ⟨hkind, hlookup, hne, htext, hsign, hname⟩
    have hmentioned := (mentionedName_eq_iff hname).2 ⟨htext, hsign⟩
    have hfound := (hid hne).2 hlookup
    exact ⟨⟨hkind, hmentioned ▸ hname, hfound ▸ hne⟩, hmentioned, hfound⟩

/-! ## What a leaf says -/

theorem keyOf_eq_anchor {node : Node} :
    Macro.keyOf node = "anchor" ↔ node.attrs.lookup "extensionKey" = some (.string "anchor") := by
  rw [Macro.keyOf, getD_empty_eq_iff (by decide), Node.text?, Json.Fields.text?_eq_some]

theorem toOption_parameter (node : Node) : (Macro.parameter node "").toOption = unnamedParameter? node := by
  simp only [Macro.parameter]
  split
  · rename_i hfound
    exact Eq.symm hfound
  · rename_i hfound
    exact Eq.symm hfound

theorem anchors_of_ne_anchor {handler : Macro} (h : handler ≠ .anchor) (position : Macro.Position) (node : Node) :
    (Leaf.handled position handler).anchors node = [] := by
  unfold Leaf.anchors
  cases handler with
  | anchor => exact absurd rfl h
  | tableOfContents | approvalsReport | changeHistory => rfl
  | issueTable =>
    simp only [Macro.render, bind, Except.bind]
    cases Macro.parameter node "macroParams" with
    | error failure => rfl
    | ok source =>
      simp only
      cases Json.readText (Macro.Search.reader Json.deepest) source <;> rfl
  | workflowMetadata =>
    simp only [Macro.render, bind, Except.bind]
    cases Macro.parameter node "" with
    | error failure => rfl
    | ok label =>
      simp only
      cases List.lookup (Text.trim label) Macro.workflowAttributes <;> rfl
  | issue =>
    simp only [Macro.render, bind, Except.bind]
    cases Macro.parameter node "key" <;> rfl

theorem anchors_of_anchor (position : Macro.Position) (node : Node) :
    (Leaf.handled position .anchor).anchors node =
      (((unnamedParameter? node).map Text.trim).filter (· ≠ "")).toList := by
  rw [← toOption_parameter]
  simp only [Leaf.anchors, Macro.render, bind, Except.bind]
  cases Macro.parameter node "" with
  | error failure => rfl
  | ok value =>
    by_cases hv : Text.trim value = ""
    · simp [hv, Except.toOption]
    · simp [hv, Except.toOption, Option.filter]

section
variable {setting : Setting} {scope : Scope} {indent : String} {node : Node}

theorem silent_records (h : IsSilent node) : anchorName? node = none ∧ mentionOf? node = none := by
  obtain ⟨hm, hu, -⟩ := h
  simp [anchorName?, mentionOf?, hm, hu]

theorem leaf_records {leaf : Leaf} (hs : setting.macros = .standard)
    (hr : Rule.ofNode setting scope indent node = .leaf leaf) :
    leaf.anchors node = (anchorName? node).toList ∧ leaf.mentions node = (mentionOf? node).toList := by
  have nothing (ha : node.kind ≠ .inlineMacro) : anchorName? node = none := by simp [anchorName?, ha]
  have nobody (hu : node.kind ≠ .mention) : mentionOf? node = none := by simp [mentionOf?, hu]
  unfold Rule.ofNode at hr
  split at hr
  case h_11 hk =>
    rw [nothing (by simp [hk]), nobody (by simp [hk])]
    split at hr <;> cases hr
    exact ⟨rfl, rfl⟩
  case h_18 hk =>
    rw [nothing (by simp [hk]), nobody (by simp [hk])]
    rcases ofMacro_cases hr with ⟨handler, hf, he⟩ | ⟨-, hr⟩
    · cases he
      refine ⟨anchors_of_ne_anchor ?_ .block node, rfl⟩
      rintro rfl
      rw [hs] at hf
      have hmem := List.mem_of_find?_eq_some hf
      revert hmem
      decide
    · cases hr
  case h_19 hk =>
    rw [nobody (by simp [hk])]
    rcases ofMacro_cases hr with ⟨handler, hf, he⟩ | ⟨-, hr⟩
    · cases he
      refine ⟨?_, rfl⟩
      have hkey : handler.key = Macro.keyOf node := by simpa using List.find?_some hf
      by_cases ha : handler = .anchor
      · subst ha
        rw [anchors_of_anchor, anchorName?, if_pos ⟨hk, keyOf_eq_anchor.1 hkey.symm⟩]
      · have hne : handler.key ≠ "anchor" := by cases handler <;> first | decide | exact absurd rfl ha
        rw [anchors_of_ne_anchor ha, anchorName?, if_neg fun h => hne (hkey.trans (keyOf_eq_anchor.2 h.2))]
        rfl
    · cases hr
  case h_22 hk =>
    cases hr
    rw [nothing (by simp [hk])]
    refine ⟨rfl, ?_⟩
    simp only [Leaf.mentions, mentionOf?, hk, true_and]
    split <;> rfl
  all_goals
    first
      | cases hr; done
      | rename_i hk
        cases hr
        rw [nothing (by simp [hk]), nobody (by simp [hk])]
        exact ⟨rfl, rfl⟩

theorem entered_records (hs : setting.macros = .standard)
    (hr : ∀ leaf, Rule.ofNode setting scope indent node ≠ .leaf leaf) :
    anchorName? node = none ∧ mentionOf? node = none := by
  constructor
  · refine if_neg ?_
    rintro ⟨hk, hkey⟩
    refine hr (.handled .inline .anchor) ?_
    simp only [Rule.ofNode, hk, Rule.ofMacro, hs, keyOf_eq_anchor.2 hkey]
    rfl
  · refine if_neg ?_
    rintro ⟨hk, -⟩
    exact hr .mention (by rw [Rule.ofNode, hk])

end

/-! ## What spots say -/

def anchorsOf (spots : List Spot) : List String :=
  spots.filterMap fun spot => anchorName? spot.2

def usersOf (spots : List Spot) : List (String × String) :=
  spots.filterMap fun spot => mentionOf? spot.2

theorem anchorsOf_append (v w : List Spot) : anchorsOf (v ++ w) = anchorsOf v ++ anchorsOf w :=
  List.filterMap_append ..

theorem usersOf_append (v w : List Spot) : usersOf (v ++ w) = usersOf v ++ usersOf w :=
  List.filterMap_append ..

theorem anchorsOf_cons (spot : Spot) (v : List Spot) :
    anchorsOf (spot :: v) = (anchorName? spot.2).toList ++ anchorsOf v := by
  unfold anchorsOf
  cases h : anchorName? spot.2 <;> simp [h]

theorem usersOf_cons (spot : Spot) (v : List Spot) : usersOf (spot :: v) = (mentionOf? spot.2).toList ++ usersOf v := by
  unfold usersOf
  cases h : mentionOf? spot.2 <;> simp [h]

/-- A memory to which is added what the spots say. No caption is marked in it. -/
structure Heard (spots : List Spot) (before after : Memory) : Prop where
  anchors : after.anchors = addAnchors before.anchors (anchorsOf spots)
  mentions : after.mentions = addMentions before.mentions (usersOf spots)
  skipped : after.skipped = none

namespace Heard

variable {a b c : Memory} {v w : List Spot} {place : Place} {node : Node}

theorem nil (h : a.skipped = none) : Heard [] a a :=
  ⟨rfl, rfl, h⟩

theorem append (h : Heard v a b) (h' : Heard w b c) : Heard (v ++ w) a c where
  anchors := by rw [h'.anchors, h.anchors, anchorsOf_append, addAnchors_append]
  mentions := by rw [h'.mentions, h.mentions, usersOf_append, addMentions_append]
  skipped := h'.skipped

theorem cons (hn : anchorName? node = none ∧ mentionOf? node = none) (h : Heard v a b) :
    Heard ((place, node) :: v) a b where
  anchors := by rw [h.anchors, anchorsOf_cons, hn.1, Option.toList_none, List.nil_append]
  mentions := by rw [h.mentions, usersOf_cons, hn.2, Option.toList_none, List.nil_append]
  skipped := h.skipped

theorem of_reads {α : Type} {step : RenderM α} (h : Reads step (anchorName? node).toList (mentionOf? node).toList)
    (hs : a.skipped = none) : Heard [(place, node)] a (step.run a).2 := by
  obtain ⟨value, notices, hstep⟩ := h
  rw [hstep]
  refine ⟨?_, ?_, hs⟩
  · rw [anchorsOf_cons, anchorsOf, List.filterMap_nil, List.append_nil]
  · rw [usersOf_cons, usersOf, List.filterMap_nil, List.append_nil]

end Heard

/-! ## Told anchors -/

/-- At one place, rendering is told anchors, in the place of those that it has met. -/
def Captions.told (target : Place) (anchors : List String) : Captions where
  take place := modifyGet fun memory => (false, if place = target then { memory with anchors } else memory)
  mark := skipCaption
  left _ index i := i = index

/-- If the told anchors are those that are met before the place, being told them changes nothing. -/
def Relays {α : Type} (target : Place) (anchors : List String) (x y : RenderM α) (v : List Spot) : Prop :=
  ∀ memory : Memory, memory.skipped = none →
    (∀ before node after, v = before ++ (target, node) :: after →
      anchors = addAnchors memory.anchors (anchorsOf before)) →
    y.run memory = x.run memory ∧ Heard v memory (x.run memory).2

section
variable {place : Place} {memory : Memory}

theorem take_marked (hm : memory.skipped = none) : (Captions.marked.take place).run memory = (false, memory) :=
  if_neg (by rw [hm]; exact nofun)

theorem take_told {target : Place} {anchors : List String} (h : place = target → anchors = memory.anchors) :
    ((Captions.told target anchors).take place).run memory = (false, memory) := by
  show (false, if place = target then { memory with anchors } else memory) = _
  by_cases hp : place = target
  · rw [if_pos hp, h hp]
  · rw [if_neg hp]

end

namespace Relays

variable {α β : Type} {target : Place} {anchors : List String} {x y : RenderM α} {v w : List Spot}

theorem pure (a : α) : Relays target anchors (pure a) (pure a) [] :=
  fun _ hm _ => ⟨rfl, .nil hm⟩

theorem bind {f g : α → RenderM β} (h : Relays target anchors x y v) (hf : ∀ a, Relays target anchors (f a) (g a) w) :
    Relays target anchors (x >>= f) (y >>= g) (v ++ w) := by
  intro memory hm ht
  obtain ⟨he, hheard⟩ := h memory hm fun before node after hv => ht before node (after ++ w) (by simp [hv])
  have hrest : ∀ before node after, w = before ++ (target, node) :: after →
      anchors = addAnchors (x.run memory).2.anchors (anchorsOf before) := by
    intro before node after hw
    rw [ht (v ++ before) node after (by simp [hw]), hheard.anchors, anchorsOf_append, addAnchors_append]
  obtain ⟨he', hheard'⟩ := hf (x.run memory).1 (x.run memory).2 hheard.skipped hrest
  rw [run_bind (rfl : x.run memory = _), run_bind he]
  exact ⟨he', hheard.append hheard'⟩

theorem cons {node : Node} (hn : anchorName? node = none ∧ mentionOf? node = none) {place : Place}
    (h : Relays target anchors x y v) : Relays target anchors x y ((place, node) :: v) := by
  intro memory hm ht
  have hbefore : ∀ before inner after, v = before ++ (target, inner) :: after →
      anchors = addAnchors memory.anchors (anchorsOf before) := by
    intro before inner after hv
    have := ht ((place, node) :: before) inner after (by rw [hv]; rfl)
    rwa [anchorsOf_cons, hn.1, Option.toList_none, List.nil_append] at this
  obtain ⟨he, hheard⟩ := h memory hm hbefore
  exact ⟨he, hheard.cons hn⟩

theorem of_reads {step : RenderM α} {node : Node} (place : Place)
    (h : Reads step (anchorName? node).toList (mentionOf? node).toList) :
    Relays target anchors step step [(place, node)] :=
  fun _ hm _ => ⟨rfl, .of_reads h hm⟩

theorem of_entered {setting : Setting} {scope : Scope} {place : Place} {indent : String} {node : Node}
    (h : Relays target anchors
      (visitBy .marked setting scope place indent node (Rule.ofNode setting scope indent node))
      (visitBy (.told target anchors) setting scope place indent node (Rule.ofNode setting scope indent node))
      ((place, node) :: v)) :
    Relays target anchors (visit .marked setting scope place indent node)
      (visit (.told target anchors) setting scope place indent node) ((place, node) :: v) := by
  intro memory hm ht
  -- Nothing stands before the node itself, so at its place the told anchors are those in the memory.
  have hplace : place = target → anchors = memory.anchors := by
    rintro rfl
    exact ht [] node v rfl
  rw [run_visit_entered (take_marked hm), run_visit_entered (take_told hplace)]
  exact h memory hm ht

end Relays

def Passage.told (setting : Setting) (hs : setting.macros = .standard) (target : Place) (anchors : List String) :
    Passage setting where
  first := .marked
  second := .told target anchors
  rel := Relays target anchors
  pure := .pure
  bind := .bind
  notices ns := by
    obtain ⟨value, notices, hstep⟩ := reads_noteAll ns
    intro memory hm _
    rw [hstep]
    exact ⟨rfl, rfl, rfl, hm⟩
  silent place _ hn := Relays.cons (silent_records hn) (.pure ())
  leaf place hr := by
    obtain ⟨ha, hu⟩ := leaf_records hs hr
    refine .of_entered ?_
    rw [hr]
    exact .of_reads place (ha ▸ hu ▸ reads_renderLeaf ..)
  entered hr hl h := by
    subst hr
    exact .of_entered (h.cons (entered_records hs hl))

end WikiPress.Render
