import WikiPress.Proofs.Caption
import WikiPress.Proofs.Met

/-!
# Rendering without a mark

A figure may leave its caption out by itself, for it knows where the caption stands: before and after its
caption it renders what is in it part by part.
-/

namespace WikiPress.Render

/-- Nothing is marked. A figure leaves out its caption by itself, but where it is to write it again. -/
def Captions.unmarked (again : List Node → Bool) : Captions where
  take _ := pure false
  mark _ := pure ()
  left content index i := i = index || (firstCaption? 0 content = some i && !again content)

/-- Every caption is written once. -/
def Captions.once : Captions :=
  .unmarked fun _ => false

section
variable {setting : Setting} {scope : Scope} {place : Place}

theorem visit_unmarked (again : List Node → Bool) (setting : Setting) (scope : Scope) (place : Place) (indent : String)
    (node : Node) : visit (.unmarked again) setting scope place indent node =
      visitBy (.unmarked again) setting scope place indent node (Rule.ofNode setting scope indent node) :=
  visit_def (.unmarked again) setting scope place indent node

/-! ## Nodes beside the image -/

theorem visitOthers_append (captions : Captions) (left : Nat → Bool) (nodes nodes' : List Node) (i : Nat) :
    visitOthers captions setting scope place left i (nodes ++ nodes') = do
      let first ← visitOthers captions setting scope place left i nodes
      return first ++ (← visitOthers captions setting scope place left (i + nodes.length) nodes') := by
  induction nodes generalizing i with
  | nil => simp [visitOthers]
  | cons node nodes ih =>
    have hi : i + (nodes.length + 1) = i + 1 + nodes.length := by omega
    simp only [List.cons_append, visitOthers, ih, List.length_cons, hi]
    by_cases hl : left i = true
    · simp only [if_pos hl, bind_assoc, pure_bind, List.append_assoc]
    · simp only [if_neg hl, bind_assoc, pure_bind, List.append_assoc]

theorem visitOthers_congr {captions : Captions} {left left' : Nat → Bool} {nodes : List Node} {i : Nat}
    (h : ∀ j, i ≤ j → j < i + nodes.length → left j = left' j) :
    visitOthers captions setting scope place left i nodes = visitOthers captions setting scope place left' i nodes := by
  induction nodes generalizing i with
  | nil => rfl
  | cons node nodes ih =>
    have hi := h i (Nat.le_refl i) (by simp)
    have hr := ih (i := i + 1) fun j hj hl => h j (by omega) (by simp only [List.length_cons]; omega)
    simp only [visitOthers, hi, hr]

theorem visitCaption_none (captions : Captions) {nodes : List Node} {i : Nat} (h : firstCaption? i nodes = none) :
    visitCaption captions setting scope place i nodes = pure none := by
  induction nodes generalizing i with
  | nil => rfl
  | cons node nodes ih =>
    unfold firstCaption? at h
    by_cases hk : node.kind = .caption
    · simp [hk] at h
    · rw [if_neg hk] at h
      rw [visitCaption, if_neg hk, ih h]

theorem visitCaption_split (captions : Captions) {content before after : List Node} {caption : Node}
    (h : CaptionSplit content before caption after) (i : Nat) :
    visitCaption captions setting scope place i content = do
      return some ((i + before.length) :: place,
        ← visitContent captions setting scope ((i + before.length) :: place) caption) := by
  obtain ⟨rfl, hb, hc⟩ := h
  induction before generalizing i with
  | nil => simp [visitCaption, hc]
  | cons node before ih =>
    obtain ⟨hn, hb⟩ := List.forall_mem_cons.1 hb
    have hi : i + 1 + before.length = i + (before.length + 1) := by omega
    simp only [List.cons_append, visitCaption, if_neg hn, ih (i + 1) hb, List.length_cons, hi]

/-! ## Figures -/

/-- Renders the caption of a figure where it stands, or leaves it out. -/
def visitIf (captions : Captions) (setting : Setting) (scope : Scope) (place : Place) (again : Bool) (caption : Node) :
    RenderM (List String) :=
  if again then visit captions setting scope place "" caption else pure []

section
variable {node caption : Node} {before after : List Node} (h : CaptionSplit node.content before caption after)
include h

theorem left_split (again : List Node → Bool) (index i : Nat) :
    (Captions.unmarked again).left node.content index i =
      (i = index || (i = before.length && !again node.content)) := by
  simp [Captions.unmarked, h.firstCaption?_eq, eq_comm]

theorem visitOthers_before (again : List Node → Bool) (captions : Captions) (index : Nat) :
    visitOthers captions setting scope place ((Captions.unmarked again).left node.content index) 0 before =
      visitOthers captions setting scope place (fun i => i = index) 0 before := by
  refine visitOthers_congr fun j _ hj => ?_
  rw [left_split h, decide_eq_false (by omega : ¬ j = before.length)]
  simp

theorem visitOthers_after (again : List Node → Bool) (captions : Captions) (index : Nat) :
    visitOthers captions setting scope place ((Captions.unmarked again).left node.content index) (before.length + 1)
      after = visitOthers captions setting scope place (fun i => i = index) (before.length + 1) after := by
  refine visitOthers_congr fun j hj _ => ?_
  rw [left_split h, decide_eq_false (by omega : ¬ j = before.length)]
  simp

/-- A figure with a caption, part by part. -/
theorem visitBy_split (captions : Captions) (indent : String) (index : Nat) (media : Node) :
    visitBy captions setting scope place indent node (.figure index media) = do
      let left := captions.left node.content index
      let text ← visitContent captions setting scope (before.length :: place) caption
      captions.mark (some (before.length :: place, text))
      let first ← visitOthers captions setting scope place left 0 before
      let second ← visitIf captions setting scope (before.length :: place) (!left before.length) caption
      let rest ← visitOthers captions setting scope place left (before.length + 1) after
      return ("\n" ++ imageBlock setting.options media (some text)) :: (first ++ (second ++ rest)) := by
  have hothers (left : Nat → Bool) : visitOthers captions setting scope place left 0 (before ++ caption :: after) = _ :=
    visitOthers_append captions left before (caption :: after) 0
  rw [← h.eq] at hothers
  simp only [visitBy, hothers, visitOthers, visitCaption_split captions h, visitIf, Nat.zero_add]
  by_cases hl : captions.left node.content index before.length = true
  · simp [hl]
  · simp [hl]

/-- The same without marks: the caption is visited again where the figure is to write it again. -/
theorem visitBy_captioned (again : List Node → Bool) (indent : String) {index : Nat} (hi : before.length ≠ index)
    (media : Node) : visitBy (.unmarked again) setting scope place indent node (.figure index media) = do
      let text ← visitContent (.unmarked again) setting scope (before.length :: place) caption
      let first ← visitOthers (.unmarked again) setting scope place (fun i => i = index) 0 before
      let second ← visitIf (.unmarked again) setting scope (before.length :: place) (again node.content) caption
      let rest ← visitOthers (.unmarked again) setting scope place (fun i => i = index) (before.length + 1) after
      return ("\n" ++ imageBlock setting.options media (some text)) :: (first ++ (second ++ rest)) := by
  have hleft : (Captions.unmarked again).left node.content index before.length = !again node.content := by
    rw [left_split h, decide_eq_false hi]
    simp
  simp only [visitBy_split h, visitOthers_before h, visitOthers_after h, hleft, Bool.not_not]
  rfl

end

theorem visitBy_uncaptioned {captions : Captions} (hmark : captions.mark none = pure ()) {node media : Node}
    {index : Nat} (hf : firstCaption? 0 node.content = none) (indent : String) :
    visitBy captions setting scope place indent node (.figure index media) = do
      return ("\n" ++ imageBlock setting.options media none) ::
        (← visitOthers captions setting scope place (captions.left node.content index) 0 node.content) := by
  simp only [visitBy, visitCaption_none captions hf, pure_bind, hmark, Option.map_none]

end

end WikiPress.Render
