import WikiPress.Proofs.Heard
import WikiPress.Proofs.Resolution
import WikiPress.Proofs.TextMarks

/-!
# Document order

The memory follows the document: the anchors that rendering has met, at its end and at each link on the way, are those
of the spots before, and of the mentions of a user the last one counts. So a text is written with a link to an anchor
exactly if the anchor stands before it.
-/

namespace WikiPress.Render

/-! ## First anchors and last mentions -/

theorem addAnchors_eq (anchors ids : List String) :
    addAnchors anchors ids = anchors ++ (ids.removeAll anchors).eraseDups := by
  induction ids generalizing anchors with
  | nil => simp [addAnchors, List.removeAll]
  | cons id ids ih =>
    rw [addAnchors, List.foldl_cons, List.cons_removeAll]
    by_cases h : anchors.contains id = true
    · rw [if_pos h, if_neg (ne_false_of_eq_true h)]
      exact ih anchors
    · have hrest : ids.removeAll (anchors ++ [id]) = (ids.removeAll anchors).filter fun other => !other == id := by
        rw [List.removeAll, List.removeAll, List.filter_filter]
        refine List.filter_congr fun other _ => ?_
        by_cases he : other = id <;> simp [he]
      rw [if_neg h, if_pos (eq_false_of_ne_true h), List.eraseDups_cons, ← hrest]
      exact (ih (anchors ++ [id])).trans (List.append_assoc ..)

theorem addAnchors_nil (ids : List String) : addAnchors [] ids = ids.eraseDups := by
  rw [addAnchors_eq, List.nil_append, List.removeAll]
  exact congrArg List.eraseDups (List.filter_eq_self.2 fun _ _ => rfl)

theorem lookup_addMentions (name : String) (mentions : Dictionary String) (users : List (String × String)) :
    (addMentions mentions users).lookup name = (users.reverse.lookup name).or (mentions.lookup name) := by
  induction users generalizing mentions with
  | nil => rfl
  | cons user users ih =>
    have hfirst : (mentions.insert user.1 user.2).lookup name =
        (List.lookup name [user]).or (mentions.lookup name) := by
      rw [Dictionary.lookup_insert, Dictionary.lookup_cons]
      split <;> rfl
    rw [addMentions, List.foldl_cons, List.reverse_cons, List.lookup_append, Option.or_assoc, ← hfirst]
    exact ih (mentions.insert user.1 user.2)

/-- The last mention of a user by this name has this id. -/
def LastMention (spots : List Spot) (name id : String) : Prop :=
  ∃ before spot after, spots = before ++ spot :: after ∧ Mentions spot.2 name id ∧
    ∀ other ∈ after, ∀ id', ¬Mentions other.2 name id'

theorem lookup_reverse_filterMap {α : Type} {f : α → Option (String × String)} {list : List α} {name id : String} :
    (list.filterMap f).reverse.lookup name = some id ↔
      ∃ before a after, list = before ++ a :: after ∧ f a = some (name, id) ∧
        ∀ b ∈ after, ∀ id', f b ≠ some (name, id') := by
  rw [← List.filterMap_reverse, List.lookup_eq_some_iff]
  constructor
  · rintro ⟨found, others, hfound, hother⟩
    -- What the lookup passed in the reversed list is what comes later in the list.
    obtain ⟨passed, rest, hlist, rfl, hrest⟩ := List.filterMap_eq_append_iff.1 hfound
    obtain ⟨skipped, a, before, rfl, hskipped, ha, -⟩ := List.filterMap_eq_cons_iff.1 hrest
    refine ⟨before.reverse, a, (passed ++ skipped).reverse, ?_, ha, fun b hb id' hid' => ?_⟩
    · rw [← List.reverse_reverse list, hlist]
      simp
    · rcases List.mem_append.1 (List.mem_reverse.1 hb) with hb | hb
      · exact absurd (hother _ (List.mem_filterMap.2 ⟨b, hb, hid'⟩)) (by simp)
      · rw [hskipped b hb] at hid'
        cases hid'
  · rintro ⟨before, a, after, rfl, ha, hafter⟩
    refine ⟨after.reverse.filterMap f, before.reverse.filterMap f, by simp [ha], ?_⟩
    rintro ⟨other, id'⟩ hmem
    obtain ⟨b, hb, hid'⟩ := List.mem_filterMap.1 hmem
    refine bne_iff_ne.2 fun hname => ?_
    subst hname
    exact hafter b (List.mem_reverse.1 hb) id' hid'

theorem lookup_usersOf {spots : List Spot} {name id : String} :
    (usersOf spots).reverse.lookup name = some id ↔ LastMention spots name id := by
  simp only [usersOf, lookup_reverse_filterMap, LastMention, ne_eq, mentionOf?_eq_some]

/-! ## Up to a place -/

/-- Rendering that ends where it comes to a place: the node there and all nodes after it are left out. -/
def Captions.upTo (target : Place) : Captions where
  take place := modifyGet fun memory =>
    if memory.skipped = none ∧ place ≠ target then (false, memory) else (true, { memory with skipped := some target })
  mark _ := pure ()
  left _ index i := i = index

/-- The memory when rendering comes to a place of a document. A mark in it says that rendering came there. -/
def arrival (setting : Setting) (doc : Node) (place : Place) : Memory :=
  ((visit (.upTo place) setting {} [] "" doc).run {}).2

/-- The anchors met so far, and whether rendering has come to the place. -/
abbrev Progress := List String × Bool

def Progress.of (memory : Memory) : Progress :=
  (memory.anchors, memory.skipped.isSome)

def Progress.step (target : Place) (progress : Progress) (spot : Spot) : Progress :=
  if progress.2 then progress
  else if spot.1 = target then (progress.1, true)
  else (addAnchors progress.1 (anchorName? spot.2).toList, false)

/-- Rendering up to the place of a node that is not silent makes progress spot by spot. -/
def Advances {α : Type} (target : Place) (step : RenderM α) (v : List Spot) : Prop :=
  (∀ spot ∈ v, spot.1 = target → ¬IsSilent spot.2) → ∀ memory : Memory,
    Progress.of (step.run memory).2 = v.foldl (Progress.step target) (.of memory)

theorem foldl_step_arrived (target : Place) (v : List Spot) (anchors : List String) :
    v.foldl (Progress.step target) (anchors, true) = (anchors, true) := by
  induction v with
  | nil => rfl
  | cons spot v ih => exact ih

theorem foldl_step_before {target : Place} {v : List Spot} (h : ∀ spot ∈ v, spot.1 ≠ target) (anchors : List String) :
    v.foldl (Progress.step target) (anchors, false) = (addAnchors anchors (anchorsOf v), false) := by
  induction v generalizing anchors with
  | nil => rfl
  | cons spot v ih =>
    have hstep : Progress.step target (anchors, false) spot =
        (addAnchors anchors (anchorName? spot.2).toList, false) := if_neg (h spot (List.mem_cons_self ..))
    rw [List.foldl_cons, hstep, ih fun spot' hs => h spot' (List.mem_cons_of_mem _ hs), anchorsOf_cons,
      addAnchors_append]

namespace Advances

variable {α β : Type} {target : Place} {x : RenderM α} {v w : List Spot}

theorem pure (a : α) : Advances target (pure a) [] :=
  fun _ _ => rfl

theorem bind {f : α → RenderM β} (h : Advances target x v) (hf : ∀ a, Advances target (f a) w) :
    Advances target (x >>= f) (v ++ w) := by
  intro hloud memory
  obtain ⟨hv, hw⟩ := List.forall_mem_append.1 hloud
  rw [run_bind (rfl : x.run memory = _), hf _ hw, h hv, List.foldl_append]

theorem silent {node : Node} (h : IsSilent node) (place : Place) :
    Advances target (Pure.pure () : RenderM Unit) [(place, node)] := by
  intro hloud memory
  have hne : place ≠ target := fun he => hloud _ (List.mem_singleton_self _) he h
  show Progress.of memory = Progress.step target (.of memory) (place, node)
  unfold Progress.step
  rw [(silent_records h).1, if_neg hne]
  cases hs : (Progress.of memory).2 with
  | true => rfl
  | false => exact Prod.ext rfl hs

theorem of_reads {mentions : List (String × String)} {anchors : List String} (h : Reads x anchors mentions)
    (memory : Memory) : Progress.of (x.run memory).2 = (addAnchors memory.anchors anchors, memory.skipped.isSome) := by
  obtain ⟨value, notices, hstep⟩ := h
  rw [hstep]
  rfl

section
variable {setting : Setting} {scope : Scope} {place : Place} {indent : String} {node : Node} {memory : Memory}

theorem of_entered (h : memory.skipped = none → place ≠ target →
      Progress.of ((visitBy (.upTo target) setting scope place indent node
        (Rule.ofNode setting scope indent node)).run memory).2 =
        v.foldl (Progress.step target) (addAnchors memory.anchors (anchorName? node).toList, false)) :
    Progress.of ((visit (.upTo target) setting scope place indent node).run memory).2 =
      ((place, node) :: v).foldl (Progress.step target) (.of memory) := by
  rw [List.foldl_cons]
  by_cases hin : memory.skipped = none ∧ place ≠ target
  · -- The place is still to come, and the node is entered.
    have hnone : (Progress.of memory).2 = false := by rw [Progress.of, hin.1]; rfl
    have htake : ((Captions.upTo target).take place).run memory = (false, memory) := if_pos hin
    rw [run_visit_entered htake, h hin.1 hin.2, Progress.step, if_neg (by simp [hnone]), if_neg hin.2]
    rfl
  · -- The place is here or behind, and all that follows is left out.
    have hstep : Progress.step target (.of memory) (place, node) = (memory.anchors, true) := by
      unfold Progress.step
      cases hs : memory.skipped with
      | some mark => simp [Progress.of, hs]
      | none =>
        have hp : place = target := Classical.not_not.1 fun hp => hin ⟨hs, hp⟩
        simp [Progress.of, hs, hp]
    have htake : ((Captions.upTo target).take place).run memory = (true, { memory with skipped := some target }) :=
      if_neg hin
    rw [run_visit_left htake, hstep, foldl_step_arrived]
    rfl

end

end Advances

def Passage.upTo (setting : Setting) (hs : setting.macros = .standard) (target : Place) : Passage setting where
  first := .upTo target
  second := .upTo target
  rel x _ := Advances target x
  pure := .pure
  bind := .bind
  notices ns := fun _ memory => Advances.of_reads (reads_noteAll ns) memory
  silent place _ hn := Advances.silent hn place
  leaf := @fun scope indent node leaf place hr => by
    refine fun _ memory => Advances.of_entered fun hm _ => ?_
    have hleaf := Advances.of_reads (reads_renderLeaf setting scope node leaf) memory
    rw [hm, (leaf_records hs hr).1] at hleaf
    rw [hr]
    exact hleaf
  entered hr hl h := by
    subst hr
    refine fun hloud memory => Advances.of_entered fun hm _ => ?_
    rw [h fun spot hv => hloud spot (List.mem_cons_of_mem _ hv), (entered_records hs hl).1, Progress.of, hm]
    rfl

section
variable {setting : Setting} {doc : Node} {before after : List Spot} {place : Place} {node : Node}

theorem arrival_spec (hs : setting.macros = .standard) (h : doc.everywhere (isComplete setting.macros) = true)
    (hspots : spots [] doc = before ++ (place, node) :: after) (hloud : ¬IsSilent node) :
    (arrival setting doc place).anchors = addAnchors [] (anchorsOf before) ∧
      (arrival setting doc place).skipped ≠ none := by
  have hpasses := (Passage.upTo setting hs place).visit_passes doc h {} [] ""
  have hapart : Apart (before ++ (place, node) :: after) := hspots ▸ spots_apart doc []
  have hplace : ∀ spot ∈ spots [] doc, spot.1 = place → ¬IsSilent spot.2 := by
    intro spot hm hp
    rw [hspots] at hm
    rw [hapart.eq_of_mem hm hp]
    exact hloud
  have hprogress := hpasses hplace {}
  have harrived : Progress.step place (addAnchors [] (anchorsOf before), false) (place, node) =
      (addAnchors [] (anchorsOf before), true) := by simp [Progress.step]
  rw [hspots, List.foldl_append, List.foldl_cons] at hprogress
  have hstart : Progress.of {} = ([], false) := rfl
  rw [hstart, foldl_step_before hapart.ne_of_before, harrived, foldl_step_arrived] at hprogress
  exact ⟨congrArg Prod.fst hprogress, Option.isSome_iff_ne_none.1 (congrArg Prod.snd hprogress)⟩

theorem relayed (hs : setting.macros = .standard) (h : doc.everywhere (isComplete setting.macros) = true)
    {anchors : List String} (hspots : spots [] doc = before ++ (place, node) :: after)
    (ha : anchors = addAnchors [] (anchorsOf before)) :
    (visit (.told place anchors) setting {} [] "" doc).run {} = (visit .marked setting {} [] "" doc).run {} ∧
      Heard (spots [] doc) {} ((visit .marked setting {} [] "" doc).run {}).2 := by
  have hpasses := (Passage.told setting hs place anchors).visit_passes doc h {} [] ""
  refine hpasses {} rfl fun before' node' after' he => ?_
  -- No other spot has this place, so there is one way to cut the spots at it.
  have hapart : Apart (before ++ (place, node) :: after) := hspots ▸ spots_apart doc []
  rw [← hapart.before_unique (hspots.symm.trans he)]
  exact ha

end

/-! ## Links to anchors -/

/-- A text is written with a link to a target wherever these anchors were met. The link goes around the formatted
text, and the blanks at its end stay outside. -/
def WritesLink (setting : Setting) (anchors : List String) (place : Place) (text : Node) (target : Link.Target) :
    Prop :=
  ∃ core blanks link, Text.EndsWithBlanks text.ownText core blanks ∧
    Link.Linked target (inMarks text.marks core) link ∧
    ∀ (scope : Scope) (indent : String) (memory : Memory), memory.anchors = anchors → memory.skipped ≠ some place →
      ((Walk.within setting scope (Walk.render place indent text)).run memory).1 =
        [escapeInCell scope.inCell (link ++ blanks)]

theorem resolves_anchor_iff {options : Options} {anchors : List String} {id : String} {target : Link.Target}
    (h : Link.Resolves options anchors ("#" ++ id) target) : target = .anchor id ↔ id ∈ anchors := by
  cases h with
  | anchor ha =>
    obtain ⟨hhref, hmem⟩ := ha
    rw [(String.append_right_inj "#").1 hhref]
    exact iff_of_true rfl hmem
  | page ha | unmapped ha | issue ha | external ha =>
    exact iff_of_false nofun fun hmem => ha id ⟨rfl, hmem⟩

section
variable {setting : Setting} {anchors : List String} {place : Place} {text : Node} {href : String}

theorem writesLink_of_resolves {target : Link.Target} (hk : text.kind = .text) {c : Char}
    (hc : c ∈ text.ownText.toList) (hblank : Text.isBlank c = false) (hlink : LastLink text.marks href)
    (htarget : Link.Resolves setting.options anchors href target) : WritesLink setting anchors place text target := by
  have hends := Text.endsWithBlanks (List.all_eq_false.2 ⟨c, hc, by simp [hblank]⟩)
  obtain ⟨link, hlinked⟩ := Link.exists_linked target (inMarks text.marks (Text.trimEnd text.ownText))
  refine ⟨_, _, link, hends, hlinked, ?_⟩
  rintro scope indent memory rfl hskipped
  have hrule : Rule.ofNode setting scope indent text = .leaf .text := by rw [Rule.ofNode, hk]
  have hmarkup : IsTextMarkup setting.options memory.anchors scope.inCell text _ :=
    .linked hends hlink (htarget.classify_eq.symm ▸ hlinked)
  rw [Walk.within_render, run_visit setting hskipped, hrule, ← hmarkup.textMarkup_eq, ← run_renderText]
  rfl

theorem WritesLink.fragments_eq {target : Link.Target} (h : WritesLink setting anchors place text target)
    (scope : Scope) (indent : String) (memory : Memory) (hanchors : memory.anchors = anchors)
    (hskipped : memory.skipped ≠ some place) :
    ((Walk.within setting scope (Walk.render place indent text)).run memory).1 =
      [escapeInCell scope.inCell (Link.markup target (inMarks text.marks (Text.trimEnd text.ownText)) ++
        .ofList (Text.blankEnd text.ownText.toList))] := by
  obtain ⟨core, blanks, link, hends, hlinked, hwritten⟩ := h
  rw [hends.trimEnd_eq, hends.blankEnd_eq, hlinked.markup_eq]
  exact hwritten scope indent memory hanchors hskipped

theorem linked_not_silent (hk : text.kind = .text) (hlink : LastLink text.marks href) : ¬IsSilent text := by
  rintro ⟨-, -, hmarks⟩
  obtain ⟨before, mark, after, hlist, -⟩ := hlink
  rw [hmarks hk] at hlist
  exact absurd hlist.symm (List.append_ne_nil_of_right_ne_nil _ (List.cons_ne_nil _ _))

end

/-! ## Documents -/

/-- **The memory follows the document.** Rendering a complete document from an empty memory ends with the anchors in
document order, each once, and with the last mention of every user. Rendering comes to every text that is linked to an
anchor, and writes it with a link that leads to the anchor exactly if that stands before the text. The anchors that
this is decided by are those that rendering has met when it comes to the text: to be told them there changes nothing. -/
theorem memory_in_order (options : Options) (title? : String → Option String) (title : Option String) (doc : Node)
    (h : doc.everywhere (isComplete .standard) = true) :
    let setting : Setting := { options, title? }
    let after := ((renderDocument setting title doc).run {}).2
    after.anchors = ((spots [] doc).filterMap fun spot => anchorName? spot.2).eraseDups ∧
      (∀ name id, after.mentions.lookup name = some id ↔ LastMention (spots [] doc) name id) ∧
      ∀ before place text rest id, spots [] doc = before ++ (place, text) :: rest → text.kind = .text →
        (∃ c ∈ text.ownText.toList, Text.isBlank c = false) → LastLink text.marks ("#" ++ id) →
        let met := arrival setting doc place
        met.skipped ≠ none ∧
        (∃ target, Link.Resolves options met.anchors ("#" ++ id) target ∧
          WritesLink setting met.anchors place text target ∧
          (target = .anchor id ↔ ∃ spot ∈ before, anchorName? spot.2 = some id)) ∧
        (visit (.told place met.anchors) setting {} [] "" doc).run {} =
          (Walk.within setting {} (Walk.render [] "" doc)).run {} := by
  intro setting after
  have hs : setting.macros = .standard := rfl
  have hcomplete : doc.everywhere (isComplete setting.macros) = true := h
  have hafter : after = ((visit .marked setting {} [] "" doc).run {}).2 := by
    rw [← Walk.within_render]
    rfl
  have hheard : Heard (spots [] doc) {} after := by
    have hroot : spots [] doc = [] ++ ([], doc) :: spotsAll [] 0 doc.content := spots_def [] doc
    rw [hafter]
    exact (relayed hs hcomplete hroot rfl).2
  refine ⟨by rw [hheard.anchors, addAnchors_nil, anchorsOf], fun name id => ?_, ?_⟩
  · rw [hheard.mentions, lookup_addMentions, ← lookup_usersOf]
    exact Option.or_none ▸ Iff.rfl
  · rintro before place text rest id hspots hk ⟨c, hc, hblank⟩ hlink met
    obtain ⟨hmet, hmarked⟩ := arrival_spec hs hcomplete hspots (linked_not_silent hk hlink)
    obtain ⟨target, htarget⟩ := Link.exists_resolves options met.anchors ("#" ++ id)
    refine ⟨hmarked, ⟨target, htarget, writesLink_of_resolves hk hc hblank hlink htarget, ?_⟩, ?_⟩
    · rw [resolves_anchor_iff htarget, hmet, mem_addAnchors, or_iff_right List.not_mem_nil, anchorsOf,
        List.mem_filterMap]
    · rw [Walk.within_render]
      exact (relayed hs hcomplete hspots hmet).1

def boldLink (text href : String) : Node :=
  { type := "text", text := some text,
    marks := [{ type := "strong" }, { type := "link", attrs := [("href", .string href)] }] }

/-- A link before the anchor that it names, a link behind it in the same cell, and a user who is mentioned twice. -/
def lateAnchor : Node :=
  let paragraph (content : List Node) : Node := { type := "paragraph", content }
  let mention (text id : String) : Node :=
    { type := "mention", attrs := [("id", .string id), ("text", .string text)] }
  let macroParams : Json.Value := .object [("", .object [("value", .string " a ")])]
  let anchor : Node :=
    { type := "inlineExtension",
      attrs := [("extensionKey", .string "anchor"), ("parameters", .object [("macroParams", macroParams)])] }
  let cell : Node := { type := "tableCell", content := [paragraph [anchor, boldLink "x|y " "#a"]] }
  let table : Node := { type := "table", content := [{ type := "tableRow", content := [cell] }] }
  { type := "doc",
    content := [paragraph [boldLink "soon " "#a", mention "@@Ann" "1"], table, paragraph [mention "@Ann" "2"]] }

theorem memory_in_order_lateAnchor :
    let rendered := (renderDocument {} none lateAnchor).run {}
    let fragments (inCell : Bool) (place : Place) (text : String) : List String :=
      let met : Memory := { anchors := (arrival {} lateAnchor place).anchors }
      ((Walk.within {} { inCell } (Walk.render place "" (boldLink text "#a"))).run met).1
    lateAnchor.everywhere (isComplete .standard) = true ∧
      rendered.1 = ":imagesdir: images\n\n*link:#a[soon]* @Ann\n\n|===\n| [[a]]*<<a,x\\|y>>*\n|===\n@Ann\n\n" ∧
      rendered.2.anchors = ["a"] ∧ rendered.2.mentions.lookup "Ann" = some "2" ∧
      fragments false [0, 0] "soon " = ["*link:#a[soon]* "] ∧
      fragments true [1, 0, 0, 0, 1] "x|y " = ["*<<a,x\\|y>>* "] := by
  intro rendered fragments
  have hcomplete : lateAnchor.everywhere (isComplete .standard) = true := by decide
  obtain ⟨hanchors, hmentions, hlinks⟩ := memory_in_order {} (fun _ => none) none lateAnchor hcomplete
  have hlast (text : String) : LastLink (boldLink text "#a").marks ("#" ++ "a") := ⟨[_], _, [], rfl, rfl, nofun, rfl⟩
  have hannounced : LastMention (spots [] lateAnchor) "Ann" "2" :=
    ⟨(spots [] lateAnchor).take 11, _, [], rfl, ⟨rfl, rfl, by decide, ⟨1, rfl⟩, by decide, by decide⟩, nofun⟩
  have hnames : ((spots [] lateAnchor).filterMap fun spot => anchorName? spot.2).eraseDups = ["a"] := by decide +kernel
  refine ⟨hcomplete, by decide +kernel, by rw [hanchors, hnames], by rwa [hmentions], ?_, ?_⟩
  · obtain ⟨-, ⟨target, htarget, hwrites, -⟩, -⟩ := hlinks ((spots [] lateAnchor).take 2) [0, 0]
      (boldLink "soon " "#a") ((spots [] lateAnchor).drop 3) "a" rfl rfl ⟨'s', by decide, by decide⟩ (hlast _)
    have hexternal : target = .external "#a" := htarget.classify_eq.symm.trans (by decide +kernel)
    dsimp only [fragments]
    rw [hwrites.fragments_eq {} "" { anchors := _ } rfl nofun, hexternal]
    decide +kernel
  · obtain ⟨-, ⟨target, -, hwrites, htarget⟩, -⟩ := hlinks ((spots [] lateAnchor).take 9) [1, 0, 0, 0, 1]
      (boldLink "x|y " "#a") ((spots [] lateAnchor).drop 10) "a" rfl rfl ⟨'x', by decide, by decide⟩ (hlast _)
    have hbefore : ∃ spot ∈ (spots [] lateAnchor).take 9, anchorName? spot.2 = some "a" := by decide +kernel
    dsimp only [fragments]
    rw [hwrites.fragments_eq { inCell := true } "" { anchors := _ } rfl nofun, htarget.2 hbefore]
    decide +kernel

end WikiPress.Render
