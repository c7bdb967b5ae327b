import WikiPress.Proofs.Alike
import WikiPress.Proofs.Mark
import WikiPress.Proofs.Mention
import WikiPress.Proofs.Walk

/-!
# Captions are written once

The mark is there so that a caption is written once: a figure should come out as if it left its caption out by
itself. It does, but where another captioned figure stands before the caption: then the caption is written a
second time.
-/

namespace WikiPress.Render

/-- What is compared of a result. The notices are left out. -/
def outcome (result : List String × Memory) : List String × List String × Dictionary String :=
  (result.1, result.2.anchors, result.2.mentions)

/-- In a context, the figure comes out as if nothing were marked and every caption were written once. -/
def WritesOnceAt (figure : Node) (place : Place) (indent : String) (context : Context) : Prop :=
  let result := (Walk.render place indent figure).run context
  outcome (result.1, result.2.memory) =
    outcome ((visit .once context.setting context.scope place indent figure).run context.memory)

instance (figure : Node) (place : Place) (indent : String) (context : Context) :
    Decidable (WritesOnceAt figure place indent context) :=
  inferInstanceAs (Decidable (_ = _))

def WritesOnce (setting : Setting) (figure : Node) : Prop :=
  ∀ (place : Place) (indent : String) (context : Context), context.setting = setting → context.memory.skipped = none →
    WritesOnceAt figure place indent context

/-- What the first caption of a figure gives where it stands, once the caption and the nodes before it are
written. -/
def echo (setting : Setting) (scope : Scope) (place : Place) (content : List Node) : RenderM (List String) := do
  let before := beforeCaption content
  let _ ← visitCaption .once setting scope place 0 content
  let _ ← visitOthers .once setting scope place (fun i => (firstMedia? content).map Prod.fst = some i) 0 before
  match content.find? (·.kind = .caption) with
  | some caption => visit .once setting scope (before.length :: place) "" caption
  | none => return []

/-- The mark of the figure is lost, and its caption gives something where it stands. -/
def Echoes (setting : Setting) (scope : Scope) (place : Place) (figure : Node) (memory : Memory) : Prop :=
  isCaptioned figure = true ∧ interrupted setting figure.content = true ∧
    ((echo setting scope place figure.content).run memory).1 ≠ []

def InOrder (setting : Setting) (node : Node) : Prop :=
  ∀ figure ∈ met setting node, isFigure figure = true → WritesOnce setting figure

section
variable {setting : Setting}

variable (setting) in
/-- Without a mark, the renderer gives what comes out where interrupted figures write their captions again. -/
theorem outcome_marked (node : Node) (scope : Scope) (place : Place) (indent : String) (memory : Memory) :
    outcome ((visit .marked setting scope place indent node).run { memory with skipped := none }) =
      outcome ((visit (.unmarked (interrupted setting)) setting scope place indent node).run memory) := by
  have h := (node_follows setting node scope place indent none .none memory none (Or.inl rfl)).1
  rw [h]
  rfl

theorem outcome_once (node : Node) (scope : Scope) (place : Place) (indent : String) (memory : Memory) :
    outcome ((visit .once setting scope place indent node).run { memory with skipped := none }) =
      outcome ((visit .once setting scope place indent node).run memory) := by
  have hm : Alike true { memory with skipped := none } memory := ⟨rfl, fun _ => rfl⟩
  obtain ⟨he, ha, -⟩ := once_agrees setting true node scope place indent (fun _ _ => trivial) _ _ hm
  simp only [outcome, Prod.mk.injEq]
  exact ⟨he, ha.anchors, ha.mentions rfl⟩

theorem writesOnceAt_iff (figure : Node) (place : Place) (indent : String) {context : Context}
    (hs : context.memory.skipped = none) : WritesOnceAt figure place indent context ↔
      outcome ((visit (.unmarked (interrupted context.setting)) context.setting context.scope place indent figure).run
          context.memory) =
        outcome ((visit .once context.setting context.scope place indent figure).run context.memory) := by
  have hmemory : { context.memory with skipped := none } = context.memory := by rw [← hs]
  have hmarked := outcome_marked context.setting figure context.scope place indent context.memory
  rw [hmemory] at hmarked
  rw [← hmarked, WritesOnceAt, Walk.render_eq]
  rfl

theorem writesOnce_iff (figure : Node) : WritesOnce setting figure ↔
    ∀ (scope : Scope) (place : Place) (indent : String) (memory : Memory),
      outcome ((visit (.unmarked (interrupted setting)) setting scope place indent figure).run memory) =
        outcome ((visit .once setting scope place indent figure).run memory) := by
  constructor
  · intro h scope place indent memory
    have hwrites := h place indent { setting, scope, memory := { memory with skipped := none } } rfl rfl
    rw [WritesOnceAt, Walk.render_eq] at hwrites
    rw [← outcome_marked, ← outcome_once]
    exact hwrites
  · rintro h place indent context rfl hs
    exact (writesOnceAt_iff figure place indent hs).2 (h context.scope place indent context.memory)

theorem inOrder_visited {node inner : Node} (h : InOrder setting node) (hi : inner ∈ visited setting node) :
    InOrder setting inner :=
  fun figure hf => h figure (mem_met_iff.2 (Or.inr ⟨inner, hi, hf⟩))

theorem inOrder_agrees (users : Bool) (node : Node) :
    NodeAgrees setting (interrupted setting) (fun _ => false) users (InOrder setting) node := by
  refine node_agrees (fun node h inner hi => inOrder_visited h hi) (fun node hf ih => ?_) node
  intro scope place indent hok memory memory' hm
  have hwrites := (writesOnce_iff node).1 (hok node (List.mem_singleton_self node) node mem_met_self hf)
  have hsame := hwrites scope place indent memory
  obtain ⟨he, ha, -⟩ := once_agrees setting users node scope place indent (fun _ _ => trivial) memory memory' hm
  simp only [outcome, Prod.mk.injEq] at hsame
  obtain ⟨hfragments, hanchors, hmentions⟩ := hsame
  exact ⟨hfragments.trans he, ⟨hanchors.trans ha.anchors, fun hu => hmentions.trans (ha.mentions hu)⟩, trivial⟩

theorem content_agrees (users : Bool) (node : Node) (scope : Scope) (place : Place) :
    Agree users (InOrder setting) (visitContent (.unmarked (interrupted setting)) setting scope place node)
      (visitContent .once setting scope place node) node.content fun _ => True :=
  visitContent_rel (.agree (interrupted setting) (fun _ => false) users (InOrder setting)) (Q := fun _ => True)
    (visitAll_rel (.agree (interrupted setting) (fun _ => false) users (InOrder setting)) .trivial
      (fun inner _ j => inOrder_agrees users inner scope (j :: place) "") 0)

theorem others_agree (users : Bool) (nodes : List Node) (scope : Scope) (place : Place) (left : Nat → Bool) (i : Nat) :
    Agree users (InOrder setting) (visitOthers (.unmarked (interrupted setting)) setting scope place left i nodes)
      (visitOthers .once setting scope place left i nodes) (otherVisits left i nodes) fun _ => True :=
  visitOthers_rel (.agree (interrupted setting) (fun _ => false) users (InOrder setting)) .trivial (fun _ => trivial) i
    fun inner _ j _ => inOrder_agrees users inner scope (j :: place) ""

/-! ## Interrupted figures -/

/-- Where nothing is written, no one is mentioned. -/
theorem mentions_of_silent {node : Node} {scope : Scope} {place : Place} {indent : String} {memory : Memory}
    (h : ((visit .once setting scope place indent node).run memory).1 = []) :
    ((visit .once setting scope place indent node).run memory).2.mentions = memory.mentions := by
  obtain ⟨-, hm, -⟩ := node_records setting node scope place indent memory
  have htells := (node_tells setting node scope place indent memory trivial).1
  have hnone : mentionsIn setting node = [] := by
    by_cases hn : mentionsIn setting node = []
    · exact hn
    · have hseen := htells ⟨node, List.mem_singleton_self node, hn⟩
      rw [h] at hseen
      exact absurd rfl hseen
  rw [hm, List.flatMap_singleton, hnone]
  rfl

section
variable {node caption : Node} {before after : List Node} (hs : CaptionSplit node.content before caption after)
include hs

theorem inOrder_caption (hinner : ∀ inner ∈ caption.content, InOrder setting inner) : InOrder setting caption := by
  intro figure hf hfigure
  rcases mem_met_iff.1 hf with rfl | ⟨inner, hi, hf⟩
  · simp [isFigure, hs.caption] at hfigure
  · have hrule : Rule.ofNode setting {} "" caption = .through "" [] := by rw [Rule.ofNode, hs.caption]
    rw [visited, hrule] at hi
    exact hinner inner hi figure hf hfigure

/-- A second time, what is in a caption adds no anchors. -/
theorem anchors_again (scope : Scope) (place : Place) (memory : Memory)
    (h : ∀ id ∈ caption.content.flatMap (anchorsIn setting), id ∈ memory.anchors) :
    ((visit .once setting scope place "" caption).run memory).2.anchors = memory.anchors := by
  obtain ⟨ha, -, -⟩ := node_records setting caption scope place "" memory
  have hrule : Rule.ofNode setting {} "" caption = .through "" [] := by rw [Rule.ofNode, hs.caption]
  have hcaption : anchorsIn setting caption = caption.content.flatMap (anchorsIn setting) := by
    have hleaf : ∀ leaf, Rule.ofNode setting {} "" caption ≠ .leaf leaf := by
      intro leaf hl
      rw [hrule] at hl
      cases hl
    rw [(recorded_of_not_leaf hleaf).1, visited, hrule]
    rfl
  rw [ha, List.flatMap_singleton, hcaption]
  exact addAnchors_of_subset h

theorem run_echo {index : Nat} {media : Node} (hm : firstMedia? node.content = some (index, media)) (scope : Scope)
    (place : Place) (memory : Memory) :
    let text := (visitContent .once setting scope (before.length :: place) caption).run memory
    let first := (visitOthers .once setting scope place (fun i => i = index) 0 before).run text.2
    (echo setting scope place node.content).run memory =
      (visit .once setting scope (before.length :: place) "" caption).run first.2 := by
  have hleft : (fun i => decide ((firstMedia? node.content).map Prod.fst = some i)) = fun i => decide (i = index) := by
    simp [hm, eq_comm]
  rw [echo, hs.find?_eq, hs.beforeCaption_eq, hleft, visitCaption_split _ hs, Nat.zero_add]
  rfl

/-- **An interrupted figure** writes the echo of its caption besides what it should write. -/
theorem interrupted_writes (hk : node.kind = .mediaSingle) {index : Nat} {media : Node}
    (hm : firstMedia? node.content = some (index, media)) (hlost : interrupted setting node.content = true)
    (hinner : ∀ inner ∈ visited setting node, InOrder setting inner) (scope : Scope) (place : Place) (indent : String)
    (memory : Memory) :
    ∃ image first rest after' after,
      (visitBy (.unmarked (interrupted setting)) setting scope place indent node (.figure index media)).run memory =
        (image :: (first ++ (((echo setting scope place node.content).run memory).1 ++ rest)), after') ∧
      (visitBy .once setting scope place indent node (.figure index media)).run memory =
        (image :: (first ++ rest), after) ∧
      after'.anchors = after.anchors ∧
      (((echo setting scope place node.content).run memory).1 = [] → after'.mentions = after.mentions) := by
  have hi := hs.length_ne hm
  rw [hs.visited_eq hk hm] at hinner
  obtain ⟨hcontent, hothers⟩ := List.forall_mem_append.1 hinner
  obtain ⟨hbefore, hafter⟩ := List.forall_mem_append.1 hothers
  have hcaption : ∀ inner ∈ [caption], InOrder setting inner :=
    List.forall_mem_singleton.2 (inOrder_caption hs hcontent)
  let target := before.length :: place
  -- The figure step by step as it should come out, and the caption where it stands.
  let text := (visitContent .once setting scope target caption).run memory
  let first := (visitOthers .once setting scope place (fun i => i = index) 0 before).run text.2
  let second := (visit .once setting scope target "" caption).run first.2
  let rest := (visitOthers .once setting scope place (fun i => i = index) (before.length + 1) after).run first.2
  have hecho : (echo setting scope place node.content).run memory = second := run_echo hs hm scope place memory
  -- The same steps as they are taken.
  let captions : Captions := .unmarked (interrupted setting)
  let text' := (visitContent captions setting scope target caption).run memory
  let first' := (visitOthers captions setting scope place (fun i => i = index) 0 before).run text'.2
  let second' := (visit captions setting scope target "" caption).run first'.2
  let rest' := (visitOthers captions setting scope place (fun i => i = index) (before.length + 1) after).run second'.2
  obtain ⟨htext, hmtext, -⟩ : text'.1 = text.1 ∧ Alike true text'.2 text.2 ∧ _ :=
    content_agrees true caption scope target hcontent memory memory (.refl true memory)
  obtain ⟨hfirst, hmfirst, -⟩ : first'.1 = first.1 ∧ Alike true first'.2 first.2 ∧ _ :=
    others_agree true before scope place (fun i => i = index) 0 hbefore text'.2 text.2 hmtext
  obtain ⟨hsecond, hmsecond, -⟩ : second'.1 = second.1 ∧ Alike true second'.2 second.2 ∧ _ :=
    inOrder_agrees true caption scope target "" hcaption first'.2 first.2 hmfirst
  have hanchors : second.2.anchors = first.2.anchors := by
    refine anchors_again hs scope target first.2 fun id hid => ?_
    obtain ⟨ht, -, -⟩ := content_records setting caption scope target memory
    obtain ⟨hf, -, -⟩ := others_record setting before scope place (fun i => i = index) 0 text.2
    rw [hf, mem_addAnchors, ht, mem_addAnchors]
    exact Or.inl (Or.inr hid)
  have hagree (users : Bool) (hu : users = true → second.2.mentions = first.2.mentions) :
      rest'.1 = rest.1 ∧ Alike users rest'.2 rest.2 ∧ _ :=
    others_agree users after scope place (fun i => i = index) (before.length + 1) hafter second'.2 first.2
      ⟨hmsecond.anchors.trans hanchors, fun h => (hmsecond.mentions rfl).trans (hu h)⟩
  obtain ⟨hrest, hmrest, -⟩ := hagree false nofun
  refine ⟨"\n" ++ imageBlock setting.options media (some text.1), first.1, rest.1, rest'.2, rest.2, ?_, ?_,
    hmrest.anchors, fun hsilent => ?_⟩
  · rw [visitBy_captioned hs _ indent hi, hlost, hecho, ← htext, ← hfirst, ← hsecond, ← hrest]
    rfl
  · rw [Captions.once, visitBy_captioned hs _ indent hi]
    rfl
  · rw [hecho] at hsilent
    exact (hagree true fun _ => mentions_of_silent hsilent).2.1.mentions rfl

end

/-! ## Figures -/

theorem left_kept {figure : Node} (hf : isFigure figure = true)
    (hkept : ¬ (isCaptioned figure = true ∧ interrupted setting figure.content = true)) (index : Nat) :
    (Captions.unmarked (interrupted setting)).left figure.content index = Captions.once.left figure.content index := by
  funext i
  cases hc : firstCaption? 0 figure.content with
  | none => simp [Captions.once, Captions.unmarked, hc]
  | some c =>
    have hcaptioned : isCaptioned figure = true := by simp [isCaptioned, hf, hc]
    have hnot : interrupted setting figure.content = false := by
      by_cases hl : interrupted setting figure.content = true
      · exact absurd ⟨hcaptioned, hl⟩ hkept
      · simpa using hl
    simp [Captions.once, Captions.unmarked, hnot]

/-- A figure that is not interrupted comes out as it should. -/
theorem kept_outcome {figure : Node} (hf : isFigure figure = true)
    (hinner : ∀ inner ∈ visited setting figure, InOrder setting inner)
    (hkept : ¬ (isCaptioned figure = true ∧ interrupted setting figure.content = true)) (scope : Scope) (place : Place)
    (indent : String) (memory : Memory) :
    outcome ((visit (.unmarked (interrupted setting)) setting scope place indent figure).run memory) =
      outcome ((visit .once setting scope place indent figure).run memory) := by
  obtain ⟨hk, index, media, hm⟩ := isFigure_iff.1 hf
  have hmark : Agree true (InOrder setting) (pure ()) (pure ()) [] fun _ => True := .pure trivial
  have hagree := visitBy_figure_rel (.agree (interrupted setting) (fun _ => false) true (InOrder setting)) scope place
    indent media (fun inner _ scope place indent _ => inOrder_agrees true inner scope place indent) (fun _ => hmark)
    (left_kept hf hkept index) rfl
  have hvisits : visited setting figure = captionVisits figure.content ++
      otherVisits (Captions.once.left figure.content index) 0 figure.content := by
    rw [visited, ofNode_figure {} "" hk hm, Rule.visits]
    simp [Captions.once, Captions.unmarked]
  rw [hvisits] at hinner
  obtain ⟨he, ha, -⟩ := hagree hinner memory memory (.refl true memory)
  rw [Captions.once, visit_unmarked, visit_unmarked, ← Captions.once, ofNode_figure scope indent hk hm]
  simp only [outcome, Prod.mk.injEq]
  exact ⟨he, ha.anchors, ha.mentions rfl⟩

/-- A figure comes out as it should exactly if it does not echo, given that the figures in it do. -/
theorem figure_outcome_iff {figure : Node} (hf : isFigure figure = true)
    (hinner : ∀ inner ∈ visited setting figure, InOrder setting inner) (scope : Scope) (place : Place) (indent : String)
    (memory : Memory) :
    outcome ((visit (.unmarked (interrupted setting)) setting scope place indent figure).run memory) =
        outcome ((visit .once setting scope place indent figure).run memory) ↔
      ¬ Echoes setting scope place figure memory := by
  by_cases hlost : isCaptioned figure = true ∧ interrupted setting figure.content = true
  · obtain ⟨hcaptioned, hlost⟩ := hlost
    obtain ⟨hk, index, media, hm⟩ := isFigure_iff.1 hf
    obtain ⟨c, hc⟩ := Option.isSome_iff_exists.1 (Bool.and_eq_true_iff.1 hcaptioned).2
    obtain ⟨before, caption, after, hs⟩ := captionSplit_of_firstCaption? hc
    obtain ⟨image, first, rest, after', after, hrun', hrun, hanchors, hmentions⟩ :=
      interrupted_writes hs hk hm hlost hinner scope place indent memory
    rw [Captions.once, visit_unmarked, visit_unmarked, ← Captions.once, ofNode_figure scope indent hk hm, hrun', hrun]
    simp only [outcome, Echoes, Prod.mk.injEq]
    constructor
    · rintro ⟨he, -, -⟩ ⟨-, -, hne⟩
      apply hne
      simpa using he
    · intro hne
      have he : ((echo setting scope place figure.content).run memory).1 = [] := by
        by_cases he : ((echo setting scope place figure.content).run memory).1 = []
        · exact he
        · exact absurd ⟨hcaptioned, hlost, he⟩ hne
      exact ⟨by rw [he, List.nil_append], hanchors, hmentions he⟩
  · have hkept := kept_outcome hf hinner hlost scope place indent memory
    have hsilent : ¬ Echoes setting scope place figure memory := fun hechoes => hlost ⟨hechoes.1, hechoes.2.1⟩
    exact iff_of_true hkept hsilent

theorem inOrder_iff (node : Node) : InOrder setting node ↔
    ∀ figure ∈ met setting node, ∀ scope place memory, ¬ Echoes setting scope place figure memory := by
  constructor
  · intro h figure hm scope place memory hechoes
    have hf : isFigure figure = true := (Bool.and_eq_true_iff.1 hechoes.1).1
    have hfigure : InOrder setting figure := fun inner hi => h inner (met_trans hm hi)
    have hwrites := (writesOnce_iff figure).1 (hfigure figure mem_met_self hf) scope place "" memory
    exact (figure_outcome_iff hf (fun inner hi => inOrder_visited hfigure hi) scope place "" memory).1 hwrites hechoes
  · refine Node.below_induction (motive := fun node => (∀ figure ∈ met setting node, ∀ scope place memory,
      ¬ Echoes setting scope place figure memory) → InOrder setting node) (fun node ih h => ?_) node
    have hinner : ∀ inner ∈ visited setting node, InOrder setting inner := fun inner hi =>
      ih inner (below_of_mem_visited hi) fun figure hf => h figure (mem_met_iff.2 (Or.inr ⟨inner, hi, hf⟩))
    intro figure hm hf
    rcases mem_met_iff.1 hm with rfl | ⟨inner, hi, hm⟩
    · refine (writesOnce_iff figure).2 fun scope place indent memory => ?_
      exact (figure_outcome_iff hf hinner scope place indent memory).2 (h figure mem_met_self scope place memory)
    · exact hinner inner hi figure hm hf

end

/-- **When captions are written once.** All figures that are met from a node come out as they should, in every
context without a mark, exactly if none of them echoes. And if those in a figure do, then the figure itself does in
just those contexts in which it does not echo. -/
theorem captions_once (setting : Setting) (node : Node) :
    (InOrder setting node ↔
      ∀ figure ∈ met setting node, ∀ scope place memory, ¬ Echoes setting scope place figure memory) ∧
    (isFigure node = true → (∀ inner ∈ visited setting node, InOrder setting inner) →
      ∀ place indent (context : Context), context.setting = setting → context.memory.skipped = none →
        (WritesOnceAt node place indent context ↔ ¬ Echoes setting context.scope place node context.memory)) := by
  refine ⟨inOrder_iff node, fun hf hinner place indent context hsetting hs => ?_⟩
  subst hsetting
  exact (writesOnceAt_iff node place indent hs).trans
    (figure_outcome_iff hf hinner context.scope place indent context.memory)

/-- A figure without a caption does no harm to the caption of the one that it stands in. -/
theorem captions_once_nested :
    let media : Node := { type := "media" }
    let inner : Node := { type := "mediaSingle", content := [media] }
    let caption : Node := { type := "caption", content := [{ type := "text", text := some "view" }] }
    let figure : Node := { type := "mediaSingle", content := [media, inner, caption] }
    isFigure figure = true ∧ (∀ inner ∈ visited {} figure, InOrder {} inner) ∧ WritesOnceAt figure [] "" {} := by
  intro media inner caption figure
  have hfigure : isFigure figure = true := by decide
  have hmet {leaf : Node} (hv : visited {} leaf = []) (hl : isCaptioned leaf = false) : InOrder {} leaf := by
    refine (captions_once {} leaf).1.2 fun node hn _ _ _ hechoes => ?_
    rw [met_def, hv, List.flatMap_nil, List.mem_singleton] at hn
    rw [hn, Echoes, hl] at hechoes
    cases hechoes.1
  have hinner : ∀ inner ∈ visited {} figure, InOrder {} inner := by
    have hv : visited {} figure = caption.content ++ [inner] := rfl
    rw [hv]
    refine List.forall_mem_append.2 ⟨List.forall_mem_singleton.2 ?_, List.forall_mem_singleton.2 ?_⟩
    · exact hmet rfl rfl
    · exact hmet rfl rfl
  refine ⟨hfigure, hinner, ((captions_once {} figure).2 hfigure hinner [] "" {} rfl rfl).2 ?_⟩
  rintro ⟨-, hlost, -⟩
  have hmedia : overwrites {} media = false := overwrites_media rfl
  have hnested : overwrites {} inner = false := by rw [overwrites_def]; rfl
  have hbefore : beforeCaption figure.content = [media, inner] := rfl
  rw [interrupted, hbefore, List.any_cons, List.any_cons, hmedia, hnested] at hlost
  cases hlost

/-- The captioned figure before the caption overwrites the mark, and the caption is written twice. -/
theorem not_writesOnce :
    ¬ ∀ (setting : Setting) (figure : Node), isFigure figure = true → WritesOnce setting figure := by
  intro h
  let text (s : String) : Node := { type := "text", text := some s }
  let image (id : String) : Node := { type := "media", attrs := [("id", .string id)] }
  let inner : Node := { type := "mediaSingle", content := [image "b", { type := "caption", content := [text "cap2"] }] }
  let figure : Node :=
    { type := "mediaSingle", content := [image "a", inner, { type := "caption", content := [text "cap1"] }] }
  have hne : ¬ WritesOnceAt figure [] "" {} := by decide +kernel
  exact hne (h {} figure (by decide) [] "" {} rfl rfl)

end WikiPress.Render
