import WikiPress.Proofs.Below
import WikiPress.Proofs.Caption
import WikiPress.Proofs.Rule

/-!
# Met nodes

The nodes that rendering a node meets, each once: the node, what its rule visits, and so on down. A caption
that titles a figure is not among them, but what is in it is. From the met nodes it is told which mark is
lost: a figure with a caption that is met while the mark of another stands overwrites it.
-/

namespace WikiPress.Render

/-! ## Visited nodes -/

/-- The nodes that are visited from a node; scope and margin do not matter for them. -/
def visited (setting : Setting) (node : Node) : List Node :=
  (Rule.ofNode setting {} "" node).visits node

section
variable {setting : Setting} {node inner : Node}

variable (setting node) in
theorem visits_ofNode (scope : Scope) (indent : String) :
    (Rule.ofNode setting scope indent node).visits node = visited setting node := by
  unfold visited Rule.ofNode
  cases node.kind <;> rfl

theorem mem_captionVisits : ∀ {nodes : List Node}, inner ∈ captionVisits nodes → ∃ node ∈ nodes, inner ∈ node.content
  | [], h => nomatch h
  | node :: nodes, h => by
    unfold captionVisits at h
    by_cases hk : node.kind = .caption
    · rw [if_pos hk] at h
      exact ⟨node, List.mem_cons_self .., h⟩
    · rw [if_neg hk] at h
      obtain ⟨n, hn, hi⟩ := mem_captionVisits h
      exact ⟨n, List.mem_cons_of_mem _ hn, hi⟩

theorem mem_otherVisits {left : Nat → Bool} : ∀ {nodes : List Node} {i : Nat},
    inner ∈ otherVisits left i nodes ↔ ∃ j, nodes[j]? = some inner ∧ left (i + j) = false
  | [], _ => by simp [otherVisits]
  | node :: nodes, i => by
    rw [otherVisits, List.mem_append, mem_otherVisits]
    constructor
    · rintro (h | ⟨j, hj, hl⟩)
      · by_cases hl : left i = true
        · simp [hl] at h
        · rw [if_neg hl, List.mem_singleton] at h
          exact ⟨0, by rw [h]; rfl, by simpa using hl⟩
      · exact ⟨j + 1, hj, by rwa [Nat.add_right_comm, Nat.add_assoc] at hl⟩
    · rintro ⟨j, hj, hl⟩
      cases j with
      | zero =>
        rw [List.getElem?_cons_zero, Option.some.injEq] at hj
        rw [Nat.add_zero] at hl
        simp [hj, hl]
      | succ j => exact Or.inr ⟨j, hj, by rwa [Nat.add_right_comm, Nat.add_assoc]⟩

theorem below_of_mem_visited (h : inner ∈ visited setting node) : Node.Below inner node := by
  have row {row : Node} (hi : inner ∈ rowVisits row) : Node.Below inner row := by
    obtain ⟨cell, hc, hi⟩ := List.mem_flatMap.1 hi
    exact .grandchild hi hc
  unfold visited at h
  generalize Rule.ofNode setting {} "" node = rule at h
  cases rule with
  | leaf leaf => cases h
  | wrap _ | through _ _ | cell | item => exact .child h
  | table =>
    obtain ⟨part, hp, hi⟩ := List.mem_flatMap.1 h
    exact .deeper (row hi) hp
  | row => exact row h
  | list bulleted =>
    obtain ⟨item, hm, hi⟩ := List.mem_flatMap.1 h
    unfold itemVisits at hi
    split at hi
    · exact .grandchild hi hm
    · cases hi
  | tasks =>
    obtain ⟨task, hm, hi⟩ := List.mem_flatMap.1 h
    unfold taskVisits at hi
    split at hi
    · exact .grandchild hi hm
    split at hi
    · rw [List.mem_singleton.1 hi]
      exact .child hm
    · cases hi
  | figure index media =>
    rcases List.mem_append.1 h with h | h
    · obtain ⟨caption, hc, hi⟩ := mem_captionVisits h
      exact .grandchild hi hc
    · obtain ⟨j, hj, -⟩ := mem_otherVisits.1 h
      exact .child (List.mem_of_getElem? hj)

/-! ## Met nodes -/

/-- The nodes that rendering a node meets, in order. -/
def met (setting : Setting) (node : Node) : List Node :=
  node :: (visited setting node).attach.flatMap fun inner => met setting inner.1
termination_by sizeOf node
decreasing_by exact Node.sizeOf_lt_of_below (below_of_mem_visited inner.2)

theorem met_def (setting : Setting) (node : Node) :
    met setting node = node :: (visited setting node).flatMap (met setting) := by
  rw [met, List.flatMap_subtype]
  · rw [List.unattach_attach]
  · intros; rfl

theorem mem_met_self : node ∈ met setting node := by
  rw [met_def]
  exact List.mem_cons_self ..

theorem mem_met_iff {figure : Node} :
    figure ∈ met setting node ↔ figure = node ∨ ∃ inner ∈ visited setting node, figure ∈ met setting inner := by
  rw [met_def, List.mem_cons, List.mem_flatMap]

theorem met_trans {figure : Node} (h : inner ∈ met setting node) (hf : figure ∈ met setting inner) :
    figure ∈ met setting node := by
  revert h
  refine Node.below_induction (motive := fun node => inner ∈ met setting node → figure ∈ met setting node)
    (fun node ih h => ?_) node
  rcases mem_met_iff.1 h with rfl | ⟨next, hn, hi⟩
  · exact hf
  · exact mem_met_iff.2 (Or.inr ⟨next, hn, ih next (below_of_mem_visited hn) hi⟩)

/-! ## Figures -/

def isFigure (node : Node) : Bool :=
  node.kind = .mediaSingle && (firstMedia? node.content).isSome

theorem isFigure_iff : isFigure node = true ↔
    node.kind = .mediaSingle ∧ ∃ index media, firstMedia? node.content = some (index, media) := by
  simp [isFigure, Option.isSome_iff_exists]

theorem ofNode_figure (scope : Scope) (indent : String) {index : Nat} {media : Node} (hk : node.kind = .mediaSingle)
    (hm : firstMedia? node.content = some (index, media)) :
    Rule.ofNode setting scope indent node = .figure index media := by
  rw [Rule.ofNode, hk]
  simp only [hm]

theorem isFigure_of_rule {scope : Scope} {indent : String} {index : Nat} {media : Node}
    (h : Rule.ofNode setting scope indent node = .figure index media) : isFigure node = true := by
  obtain ⟨hk, hm⟩ := ofNode_fits h
  exact isFigure_iff.2 ⟨hk, index, media, hm⟩

def isCaptioned (node : Node) : Bool :=
  isFigure node && (firstCaption? 0 node.content).isSome

/-- Does a figure with a caption overwrite a mark while the node is rendered? -/
def overwrites (setting : Setting) (node : Node) : Bool :=
  (met setting node).any isCaptioned

theorem overwrites_def (setting : Setting) (node : Node) :
    overwrites setting node = (isCaptioned node || (visited setting node).any (overwrites setting)) := by
  rw [overwrites, met_def, List.any_cons, List.any_flatMap]
  rfl

def beforeCaption (nodes : List Node) : List Node :=
  nodes.takeWhile fun node => node.kind ≠ .caption

/-- Is the mark of a figure lost before the caption is met? -/
def interrupted (setting : Setting) (content : List Node) : Bool :=
  (beforeCaption content).any (overwrites setting)

theorem overwrites_media {media : Node} (h : media.kind = .media) : overwrites setting media = false := by
  have hv : visited setting media = [] := by
    rw [visited, Rule.ofNode, h]
    rfl
  have hc : isCaptioned media = false := by
    rw [isCaptioned, isFigure, h]
    rfl
  rw [overwrites_def, hv, hc]
  rfl

theorem captionVisits_none {nodes : List Node} {i : Nat} (h : firstCaption? i nodes = none) :
    captionVisits nodes = [] := by
  induction nodes generalizing i with
  | nil => rfl
  | cons node nodes ih =>
    unfold firstCaption? at h
    by_cases hk : node.kind = .caption
    · simp [hk] at h
    · rw [if_neg hk] at h
      rw [captionVisits, if_neg hk, ih h]

/-- Nodes taken apart at their first caption. -/
structure CaptionSplit (content before : List Node) (caption : Node) (after : List Node) : Prop where
  eq : content = before ++ caption :: after
  before : ∀ node ∈ before, node.kind ≠ .caption
  caption : caption.kind = .caption

theorem captionSplit_of_firstCaption? {c : Nat} : ∀ {nodes : List Node} {i : Nat}, firstCaption? i nodes = some c →
    ∃ before caption after, CaptionSplit nodes before caption after
  | [], _, h => nomatch h
  | node :: nodes, i, h => by
    unfold firstCaption? at h
    by_cases hk : node.kind = .caption
    · exact ⟨[], node, nodes, rfl, List.forall_mem_nil _, hk⟩
    · rw [if_neg hk] at h
      obtain ⟨before, caption, after, hs⟩ := captionSplit_of_firstCaption? h
      exact ⟨node :: before, caption, after, congrArg (node :: ·) hs.eq, List.forall_mem_cons.2 ⟨hk, hs.before⟩,
        hs.caption⟩

namespace CaptionSplit

variable {content before after : List Node} {caption : Node}

theorem firstCaption?_eq (h : CaptionSplit content before caption after) (i : Nat) :
    firstCaption? i content = some (i + before.length) := by
  obtain ⟨rfl, hb, hc⟩ := h
  induction before generalizing i with
  | nil => simp [firstCaption?, hc]
  | cons node before ih =>
    obtain ⟨hn, hb⟩ := List.forall_mem_cons.1 hb
    have rest := ih (i + 1) hb
    simp only [List.cons_append, firstCaption?, if_neg hn, rest, List.length_cons]
    congr 1
    omega

theorem captionVisits_eq (h : CaptionSplit content before caption after) : captionVisits content = caption.content := by
  obtain ⟨rfl, hb, hc⟩ := h
  induction before with
  | nil => simp [captionVisits, hc]
  | cons node before ih =>
    obtain ⟨hn, hb⟩ := List.forall_mem_cons.1 hb
    simp [captionVisits, hn, ih hb]

theorem beforeCaption_eq (h : CaptionSplit content before caption after) : beforeCaption content = before := by
  obtain ⟨rfl, hb, hc⟩ := h
  have hall : ∀ node ∈ before, decide (node.kind ≠ .caption) = true := by simpa using hb
  rw [beforeCaption, List.takeWhile_append_of_pos hall, List.takeWhile_cons_of_neg (by simpa using hc), List.append_nil]

theorem find?_eq (h : CaptionSplit content before caption after) :
    content.find? (fun node => node.kind = .caption) = some caption := by
  obtain ⟨rfl, hb, hc⟩ := h
  have hnone : before.find? (fun node => decide (node.kind = .caption)) = none := by simpa using hb
  rw [List.find?_append, hnone, List.find?_cons_of_pos (by simpa using hc)]
  rfl

theorem length_ne (h : CaptionSplit content before caption after) {index : Nat} {media : Node}
    (hm : firstMedia? content = some (index, media)) : before.length ≠ index := by
  have := firstCaption?_ne_firstMedia? (h.firstCaption?_eq 0) hm
  omega

theorem mem_before (h : CaptionSplit content before caption after) {node : Node} (hn : node ∈ before) :
    node ∈ content := by
  rw [h.eq]
  exact List.mem_append_left _ hn

theorem mem_caption (h : CaptionSplit content before caption after) : caption ∈ content := by
  rw [h.eq]
  exact List.mem_append_right _ (List.mem_cons_self ..)

theorem mem_after (h : CaptionSplit content before caption after) {node : Node} (hn : node ∈ after) :
    node ∈ content := by
  rw [h.eq]
  exact List.mem_append_right _ (List.mem_cons_of_mem _ hn)

end CaptionSplit

theorem otherVisits_append (left : Nat → Bool) (nodes nodes' : List Node) (i : Nat) :
    otherVisits left i (nodes ++ nodes') = otherVisits left i nodes ++ otherVisits left (i + nodes.length) nodes' := by
  induction nodes generalizing i with
  | nil => rfl
  | cons node nodes ih =>
    rw [List.cons_append, otherVisits, ih, otherVisits, List.append_assoc, List.length_cons, Nat.add_right_comm,
      Nat.add_assoc]

theorem otherVisits_congr {left left' : Nat → Bool} {nodes : List Node} {i : Nat}
    (h : ∀ j, i ≤ j → j < i + nodes.length → left j = left' j) :
    otherVisits left i nodes = otherVisits left' i nodes := by
  induction nodes generalizing i with
  | nil => rfl
  | cons node nodes ih =>
    have hi := h i (Nat.le_refl i) (by simp)
    have hr := ih (i := i + 1) fun j hj hl => h j (by omega) (by simp only [List.length_cons]; omega)
    rw [otherVisits, otherVisits, hi, hr]

/-- A figure with a caption visits what is in the caption and all nodes but the caption and the image. -/
theorem CaptionSplit.visited_eq {before after : List Node} {caption : Node}
    (h : CaptionSplit node.content before caption after) (hk : node.kind = .mediaSingle) {index : Nat} {media : Node}
    (hm : firstMedia? node.content = some (index, media)) :
    visited setting node = caption.content ++ (otherVisits (fun i => i = index) 0 before ++
      otherVisits (fun i => i = index) (before.length + 1) after) := by
  have hleft (i : Nat) : (decide (i = index) || decide (firstCaption? 0 node.content = some i)) =
      (decide (i = index) || decide (i = before.length)) := by
    simp [h.firstCaption?_eq, eq_comm]
  have hbefore : otherVisits (fun i => i = index || i = before.length) 0 before =
      otherVisits (fun i => i = index) 0 before :=
    otherVisits_congr fun j _ hj => by rw [decide_eq_false (by omega : ¬ j = before.length), Bool.or_false]
  have hafter : otherVisits (fun i => i = index || i = before.length) (before.length + 1) after =
      otherVisits (fun i => i = index) (before.length + 1) after :=
    otherVisits_congr fun j hj _ => by rw [decide_eq_false (by omega : ¬ j = before.length), Bool.or_false]
  rw [visited, ofNode_figure {} "" hk hm, Rule.visits, h.captionVisits_eq]
  simp only [hleft]
  rw [h.eq, otherVisits_append, hbefore, otherVisits, Nat.zero_add, hafter]
  simp

theorem any_otherVisits {p : Node → Bool} {left : Nat → Bool} : ∀ {nodes : List Node} {i : Nat},
    (∀ j node, nodes[j]? = some node → left (i + j) = true → p node = false) →
      (otherVisits left i nodes).any p = nodes.any p
  | [], _, _ => rfl
  | node :: nodes, i, h => by
    have hn := h 0 node rfl
    have rest : (otherVisits left (i + 1) nodes).any p = nodes.any p :=
      any_otherVisits fun j n hj hl => h (j + 1) n hj (by rwa [← Nat.add_assoc, Nat.add_right_comm])
    unfold otherVisits
    by_cases hl : left i = true
    · rw [if_pos hl, List.nil_append, rest, List.any_cons, hn hl, Bool.false_or]
    · rw [if_neg hl, List.singleton_append, List.any_cons, rest, List.any_cons]

variable (setting) in
/-- What a figure visits before its caption overwrites the mark when what stands there does. -/
theorem any_beforeCaption {before after : List Node} {caption : Node} {index : Nat} {media : Node}
    (h : CaptionSplit node.content before caption after) (hm : firstMedia? node.content = some (index, media)) :
    (otherVisits (fun i => i = index) 0 before).any (overwrites setting) = interrupted setting node.content := by
  obtain ⟨hmedia, hk⟩ := firstMedia?_getElem? hm
  rw [interrupted, h.beforeCaption_eq]
  refine any_otherVisits fun j n hj hl => ?_
  rw [Nat.zero_add, decide_eq_true_eq] at hl
  have hn : node.content[j]? = some n := by
    rw [h.eq]
    exact (List.getElem?_append_left (List.getElem?_eq_some_iff.1 hj).1).trans hj
  rw [hl, hmedia, Option.some.injEq] at hn
  exact overwrites_media (hn ▸ hk)

end

end WikiPress.Render
