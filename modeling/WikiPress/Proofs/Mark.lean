import WikiPress.Proofs.Judgement
import WikiPress.Proofs.Leaf
import WikiPress.Proofs.Unmarked

/-!
# The way of a mark

There is one mark for the whole document. It is set when a figure has written its caption, and stays while
the nodes before the caption are rendered, unless one of them sets a mark of its own: that one is gone when it
is done, and the caption is written again where it stands. Without a mark the same comes out of figures that
know by themselves whether to leave their captions out.
-/

namespace WikiPress.Render

section
variable {setting : Setting} {scope : Scope} {place : Place}

/-! ## Marks -/

/-- A mark that no node in a place or below it takes for its own. -/
def Foreign (place : Place) (mark : Option Place) : Prop :=
  ∀ target ∈ mark, ¬ place <:+ target

theorem Foreign.inner {place' : Place} {mark : Option Place} (h : Foreign place mark) (hp : place <:+ place') :
    Foreign place' mark :=
  fun target ht hs => h target ht (hp.trans hs)

theorem Foreign.none : Foreign place none := nofun

/-- With a mark or without, the first step gives what the second gives, which knows of no mark. The mark is
lost when a visited node overwrites it. -/
def Follows {α : Type} (setting : Setting) (mark : Option Place) (x y : RenderM α) (visits : List Node)
    (Q : α → Prop) : Prop :=
  ∀ (memory : Memory) (mark' : Option Place), mark' = mark ∨ mark' = none →
    x.run { memory with skipped := mark' } = ((y.run memory).1,
      { (y.run memory).2 with skipped := if visits.any (overwrites setting) then none else mark' }) ∧
    Q (y.run memory).1

namespace Follows

variable {α β : Type} {mark : Option Place}

theorem pure {Q : α → Prop} {a : α} (h : Q a) : Follows setting mark (pure a) (pure a) [] Q :=
  fun _ _ _ => ⟨rfl, h⟩

theorem bind {x y : RenderM α} {f g : α → RenderM β} {v w : List Node} {Q : α → Prop} {R : β → Prop}
    (h : Follows setting mark x y v Q) (hf : ∀ a, Q a → Follows setting mark (f a) (g a) w R) :
    Follows setting mark (x >>= f) (y >>= g) (v ++ w) R := by
  intro memory mark' hm
  obtain ⟨hx, hq⟩ := h memory mark' hm
  have hm' : (if v.any (overwrites setting) then none else mark') = mark ∨
      (if v.any (overwrites setting) then none else mark') = none := by
    by_cases hv : v.any (overwrites setting) = true
    · simp [hv]
    · simpa [hv] using hm
  obtain ⟨hg, hr⟩ := hf _ hq (y.run memory).2 _ hm'
  refine ⟨?_, hr⟩
  show (f (x.run _).1).run (x.run _).2 = _
  rw [hx]
  refine hg.trans ?_
  rw [List.any_append]
  cases v.any (overwrites setting) <;> cases w.any (overwrites setting) <;> rfl

theorem mono {x y : RenderM α} {v : List Node} {Q R : α → Prop} (h : Follows setting mark x y v Q)
    (hQ : ∀ a, Q a → R a) : Follows setting mark x y v R :=
  fun memory mark' hm => ⟨(h memory mark' hm).1, hQ _ (h memory mark' hm).2⟩

theorem map {x y : RenderM α} {v : List Node} {Q : α → Prop} (h : Follows setting mark x y v Q) (f : α → β) :
    Follows setting mark (do return f (← x)) (do return f (← y)) v fun _ => True := by
  have := h.bind (R := fun _ => True) fun a _ => pure (a := f a) trivial
  rwa [List.append_nil] at this

theorem of_any {x y : RenderM α} {v w : List Node} {Q : α → Prop} (h : Follows setting mark x y v Q)
    (hv : v.any (overwrites setting) = w.any (overwrites setting)) : Follows setting mark x y w Q := by
  unfold Follows at h ⊢
  rwa [hv] at h

theorem of_reads {step : RenderM α} {anchors : List String} {mentions : List (String × String)}
    (h : Reads step anchors mentions) : Follows setting mark step step [] fun _ => True := by
  obtain ⟨value, notices, hstep⟩ := h
  intro memory mark' _
  rw [hstep, hstep]
  exact ⟨rfl, trivial⟩

end Follows

abbrev Judgement.follows (setting : Setting) (mark : Option Place) : Judgement where
  first := .marked
  second := .unmarked (interrupted setting)
  rel := Follows setting mark
  pure := .pure
  bind := .bind
  mono := .mono

/-! ## Nodes in a figure -/

def NodeFollows (setting : Setting) (node : Node) : Prop :=
  ∀ (scope : Scope) (place : Place) (indent : String) (mark : Option Place), Foreign place mark →
    Follows setting mark (visit .marked setting scope place indent node)
      (visit (.unmarked (interrupted setting)) setting scope place indent node) [node] fun _ => True

section
variable {nodes : List Node}

theorem content_follows {node : Node} (h : ∀ inner ∈ node.content, NodeFollows setting inner) (scope : Scope)
    {mark : Option Place} (hm : Foreign place mark) :
    Follows setting mark (visitContent .marked setting scope place node)
      (visitContent (.unmarked (interrupted setting)) setting scope place node) node.content fun _ => True := by
  refine visitContent_rel (.follows setting mark) (Q := fun _ => True) (visitAll_rel (.follows setting mark) .trivial
    (fun inner hi i => ?_) 0)
  exact h inner hi scope _ "" mark (hm.inner (List.suffix_cons i place))

theorem others_follow (h : ∀ node ∈ nodes, NodeFollows setting node) (scope : Scope) {mark : Option Place} {i : Nat}
    (hm : ∀ j < i + nodes.length, Foreign (j :: place) mark) (left : Nat → Bool) :
    Follows setting mark (visitOthers .marked setting scope place left i nodes)
      (visitOthers (.unmarked (interrupted setting)) setting scope place left i nodes) (otherVisits left i nodes)
      fun _ => True :=
  visitOthers_rel (.follows setting mark) .trivial (fun _ => trivial) i fun node hn j hj =>
    h node hn scope _ "" mark (hm j hj)

end

/-! ## Figures -/

/-- Where no mark is left, nothing is left out but the image. -/
theorem others_follow_none {nodes : List Node} (h : ∀ node ∈ nodes, NodeFollows setting node) (scope : Scope)
    (place : Place) (left : Nat → Bool) (i : Nat) (memory : Memory) :
    (visitOthers .marked setting scope place left i nodes).run { memory with skipped := none } =
      let others := (visitOthers (.unmarked (interrupted setting)) setting scope place left i nodes).run memory
      (others.1, { others.2 with skipped := none }) := by
  have hm : ∀ j < i + nodes.length, Foreign (j :: place) none := fun _ _ => Foreign.none
  have := (others_follow h scope hm left memory none (Or.inl rfl)).1
  simpa using this

section
variable {node caption : Node} {before after : List Node} (hs : CaptionSplit node.content before caption after)
  (h : ∀ inner ∈ node.content, NodeFollows setting inner)
include hs h

/-- The nodes before the caption keep the mark of the figure, unless one of them overwrites it. -/
theorem before_follows {index : Nat} {media : Node} (hm : firstMedia? node.content = some (index, media))
    (scope : Scope) (place : Place) (memory : Memory) :
    let captions : Captions := .unmarked (interrupted setting)
    let target := before.length :: place
    let others := (visitOthers captions setting scope place (fun i => i = index) 0 before).run memory
    (visitOthers .marked setting scope place (fun i => i = index) 0 before).run (memory.skip target) =
      (others.1, { others.2 with skipped := if interrupted setting node.content then none else some target }) := by
  intro captions target others
  have hmark : ∀ j < 0 + before.length, Foreign (j :: place) (some target) := by
    intro j hj target' ht hp
    cases ht
    have he : j :: place = before.length :: place := hp.eq_of_length rfl
    simp only [List.cons.injEq] at he
    omega
  have := (others_follow (fun inner hi => h inner (hs.mem_before hi)) scope hmark (fun i => i = index) memory _
    (Or.inl rfl)).1
  rwa [any_beforeCaption setting hs hm] at this

/-- The caption is left out where the mark is there, and visited again where the mark is lost. -/
theorem caption_again_follows (scope : Scope) (place : Place) (memory : Memory) :
    let lost := interrupted setting node.content
    let target := before.length :: place
    let second := (visitIf (.unmarked (interrupted setting)) setting scope target lost caption).run memory
    (visitIf .marked setting scope target true caption).run
        { memory with skipped := if lost then none else some target } =
      (second.1, { second.2 with skipped := none }) := by
  intro lost target second
  by_cases hl : lost = true
  · have hcaption := (h caption hs.mem_caption scope target "" none .none memory none (Or.inl rfl)).1
    simp only [second, visitIf, hl, if_true]
    simpa using hcaption
  · simp only [second, visitIf, hl, if_true]
    exact visit_of_skipped setting rfl caption

/-- A figure with a caption takes the mark for itself, and leaves none. -/
theorem captioned_follows (h' : ∀ inner ∈ caption.content, NodeFollows setting inner) {index : Nat} {media : Node}
    (hm : firstMedia? node.content = some (index, media)) (scope : Scope) (indent : String) (memory : Memory)
    {mark : Option Place} (hmark : Foreign place mark) :
    let captions : Captions := .unmarked (interrupted setting)
    let result := (visitBy captions setting scope place indent node (.figure index media)).run memory
    (visitBy .marked setting scope place indent node (.figure index media)).run { memory with skipped := mark } =
      (result.1, { result.2 with skipped := none }) := by
  intro captions result
  let target := before.length :: place
  let text := (visitContent captions setting scope target caption).run memory
  let first := (visitOthers captions setting scope place (fun i => i = index) 0 before).run text.2
  let second := (visitIf captions setting scope target (interrupted setting node.content) caption).run first.2
  have hi := hs.length_ne hm
  have htarget : Foreign target mark := hmark.inner (List.suffix_cons _ place)
  have htext := (content_follows h' scope htarget memory mark (Or.inl rfl)).1
  have hmarked : (Captions.marked.mark (some (target, text.1))).run
      { text.2 with skipped := if caption.content.any (overwrites setting) then none else mark } =
        ((), text.2.skip target) := rfl
  have hfirst := before_follows hs h hm scope place text.2
  have hsecond := caption_again_follows hs h scope place first.2
  have hrest := others_follow_none (fun inner hi => h inner (hs.mem_after hi)) scope place (fun i => i = index)
    (before.length + 1) second.2
  have hleft : Captions.marked.left node.content index before.length = false := decide_eq_false hi
  have hresult : result = (visitBy captions setting scope place indent node (.figure index media)).run memory := rfl
  rw [visitBy_captioned hs _ indent hi] at hresult
  rw [visitBy_split hs, hresult, run_bind htext, run_bind hmarked]
  refine (run_bind hfirst).trans ?_
  rw [hleft]
  refine (run_bind hsecond).trans ?_
  refine (run_bind hrest).trans ?_
  rfl

end

theorem figure_follows {node media : Node} {index : Nat} (hk : node.kind = .mediaSingle)
    (hm : firstMedia? node.content = some (index, media))
    (h : ∀ inner, Node.Below inner node → NodeFollows setting inner) (indent : String) {mark : Option Place}
    (hmark : Foreign place mark) :
    Follows setting mark (visitBy .marked setting scope place indent node (.figure index media))
      (visitBy (.unmarked (interrupted setting)) setting scope place indent node (.figure index media)) [node]
      fun _ => True := by
  have hinside : ∀ inner ∈ node.content, NodeFollows setting inner := fun inner hi => h inner (.child hi)
  have hv : visited setting node = (Rule.figure index media).visits node := by rw [visited, ofNode_figure {} "" hk hm]
  cases hf : firstCaption? 0 node.content with
  | none =>
    have hleft : (Captions.unmarked (interrupted setting)).left node.content index = fun i => decide (i = index) := by
      simp [Captions.unmarked, hf]
    have hothers := others_follow hinside scope
      (fun j (_ : j < 0 + _) => hmark.inner (List.suffix_cons j place)) fun i => i = index
    have hany : (otherVisits (fun i => i = index) 0 node.content).any (overwrites setting) =
        [node].any (overwrites setting) := by
      have hcaptioned : isCaptioned node = false := by simp [isCaptioned, hf]
      simp [overwrites_def, hcaptioned, hv, Rule.visits, captionVisits_none hf, hf]
    have hmap := hothers.map fun others => ("\n" ++ imageBlock setting.options media none) :: others
    rw [visitBy_uncaptioned rfl hf, visitBy_uncaptioned rfl hf, hleft]
    exact Follows.of_any hmap hany
  | some c =>
    obtain ⟨before, caption, after, hs⟩ := captionSplit_of_firstCaption? hf
    have hcaptioned : overwrites setting node = true := by
      rw [overwrites_def, isCaptioned, isFigure, hf, hm, hk]
      rfl
    intro memory mark' hmark'
    have hforeign : Foreign place mark' := by
      rcases hmark' with rfl | rfl
      · exact hmark
      · exact .none
    have hcaption : ∀ inner ∈ caption.content, NodeFollows setting inner := fun inner hi =>
      h inner (.grandchild hi hs.mem_caption)
    have hfigure := captioned_follows hs hinside hcaption hm scope indent memory hforeign
    refine ⟨?_, trivial⟩
    rw [hfigure, List.any_cons, hcaptioned]
    rfl

end

/-! ## Nodes -/

/-- **Marks and captions.** With the mark, a caption is written once, and once more where the mark is lost before
the caption is met. -/
theorem node_follows (setting : Setting) (node : Node) : NodeFollows setting node := by
  refine Node.below_induction (fun node ih => ?_) node
  intro scope place indent mark hmark
  have hby : Follows setting mark
      (visitBy .marked setting scope place indent node (Rule.ofNode setting scope indent node))
      (visitBy (.unmarked (interrupted setting)) setting scope place indent node
        (Rule.ofNode setting scope indent node)) [node] fun _ => True := by
    have hvisits := visits_ofNode setting node scope indent
    generalize hrule : Rule.ofNode setting scope indent node = rule at hvisits ⊢
    by_cases hf : ∃ index media, rule = .figure index media
    · obtain ⟨index, media, rfl⟩ := hf
      obtain ⟨hk, hm⟩ := ofNode_fits hrule
      exact figure_follows hk hm ih indent hmark
    · have hrel := visitBy_rel (.follows setting mark) scope place indent
        (fun inner hb scope place' indent hp => ih inner hb scope place' indent mark (hmark.inner hp))
        (fun leaf _ => .of_reads (reads_renderLeaf setting scope node leaf))
        (fun notices => .of_reads (reads_noteAll notices)) fun index media he => hf ⟨index, media, he⟩
      have hany : (visited setting node).any (overwrites setting) = [node].any (overwrites setting) := by
        have hcaptioned : isCaptioned node = false := by
          refine Bool.eq_false_iff.2 fun hc => ?_
          obtain ⟨hk, index, media, hm⟩ := isFigure_iff.1 (Bool.and_eq_true_iff.1 hc).1
          exact hf ⟨index, media, hrule.symm.trans (ofNode_figure scope indent hk hm)⟩
        simp [overwrites_def setting node, hcaptioned]
      rw [hvisits] at hrel
      exact Follows.of_any hrel hany
  intro memory mark' hmark'
  have hne : mark' ≠ some place := by
    rintro rfl
    rcases hmark' with h | h
    · exact hmark place h.symm (List.suffix_refl place)
    · cases h
  have htake : (Captions.marked.take place).run { memory with skipped := mark' } =
      (false, { memory with skipped := mark' }) := if_neg hne
  have hrun := hby memory mark' hmark'
  rw [visit_def, visit_unmarked, run_bind htake]
  exact hrun

end WikiPress.Render
