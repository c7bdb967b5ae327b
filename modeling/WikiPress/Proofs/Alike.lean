import WikiPress.Proofs.Judgement
import WikiPress.Proofs.Leaf
import WikiPress.Proofs.Unmarked

/-!
# Alike memories

What rendering gives depends on the memory only through the anchors. So memories that are alike may be
exchanged, and a figure may be exchanged for one that gives the same.
-/

namespace WikiPress.Render

/-- Memories with the same anchors, and with the same mentions where the users are compared. -/
structure Alike (users : Bool) (a b : Memory) : Prop where
  anchors : a.anchors = b.anchors
  mentions : users = true → a.mentions = b.mentions

theorem Alike.refl (users : Bool) (a : Memory) : Alike users a a :=
  ⟨rfl, fun _ => rfl⟩

/-- If the visited nodes are as they should be, both steps give the same from alike memories, and leave alike
memories. -/
def Agree {α : Type} (users : Bool) (ok : Node → Prop) (x y : RenderM α) (visits : List Node) (Q : α → Prop) : Prop :=
  (∀ node ∈ visits, ok node) → ∀ memory memory' : Memory, Alike users memory memory' →
    (x.run memory).1 = (y.run memory').1 ∧ Alike users (x.run memory).2 (y.run memory').2 ∧ Q (y.run memory').1

namespace Agree

variable {α β : Type} {users : Bool} {ok : Node → Prop} {x y : RenderM α} {v w : List Node} {Q : α → Prop}

theorem pure {a : α} (h : Q a) : Agree users ok (pure a) (pure a) [] Q :=
  fun _ _ _ hm => ⟨rfl, hm, h⟩

theorem bind {f g : α → RenderM β} {R : β → Prop} (h : Agree users ok x y v Q)
    (hf : ∀ a, Q a → Agree users ok (f a) (g a) w R) : Agree users ok (x >>= f) (y >>= g) (v ++ w) R := by
  intro hok memory memory' hm
  obtain ⟨hv, hw⟩ := List.forall_mem_append.1 hok
  obtain ⟨he, ha, hq⟩ := h hv memory memory' hm
  rw [run_bind (rfl : x.run memory = _), run_bind (rfl : y.run memory' = _), he]
  exact hf _ hq hw _ _ ha

theorem mono {R : α → Prop} (h : Agree users ok x y v Q) (hQ : ∀ a, Q a → R a) : Agree users ok x y v R := by
  intro hok memory memory' hm
  obtain ⟨he, ha, hq⟩ := h hok memory memory' hm
  exact ⟨he, ha, hQ _ hq⟩

theorem of_reads {anchors : List String} {mentions : List (String × String)} (h : Reads x anchors mentions) :
    Agree users ok x x [] fun _ => True := by
  obtain ⟨value, notices, hstep⟩ := h
  intro _ memory memory' hm
  rw [hstep, hstep, hm.anchors]
  exact ⟨rfl, ⟨rfl, fun hu => congrArg (addMentions · mentions) (hm.mentions hu)⟩, trivial⟩

end Agree

abbrev Judgement.agree (again again' : List Node → Bool) (users : Bool) (ok : Node → Prop) : Judgement where
  first := .unmarked again
  second := .unmarked again'
  rel := Agree users ok
  pure := .pure
  bind := .bind
  mono := .mono

/-! ## Nodes -/

def NodeAgrees (setting : Setting) (again again' : List Node → Bool) (users : Bool) (ok : Node → Prop) (node : Node) :
    Prop :=
  ∀ (scope : Scope) (place : Place) (indent : String),
    Agree users ok (visit (.unmarked again) setting scope place indent node)
      (visit (.unmarked again') setting scope place indent node) [node] fun _ => True

section
variable {setting : Setting} {again again' : List Node → Bool} {users : Bool} {ok : Node → Prop}

theorem node_agrees (hok : ∀ node, ok node → ∀ inner ∈ visited setting node, ok inner)
    (hfigure : ∀ node, isFigure node = true →
      (∀ inner, Node.Below inner node → NodeAgrees setting again again' users ok inner) →
      NodeAgrees setting again again' users ok node) (node : Node) : NodeAgrees setting again again' users ok node := by
  refine Node.below_induction (fun node ih => ?_) node
  by_cases hf : isFigure node = true
  · exact hfigure node hf ih
  intro scope place indent hnode
  have hvisits := visits_ofNode setting node scope indent
  have hrule : ∀ index media, Rule.ofNode setting scope indent node ≠ .figure index media :=
    fun _ _ he => hf (isFigure_of_rule he)
  rw [visit_unmarked, visit_unmarked]
  refine visitBy_rel (.agree again again' users ok) scope place indent
    (fun inner hb scope place indent _ => ih inner hb scope place indent)
    (fun leaf _ => .of_reads (reads_renderLeaf setting scope node leaf))
    (fun notices => .of_reads (reads_noteAll notices)) hrule ?_
  rw [hvisits]
  exact hok node (hnode node (List.mem_singleton_self node))

end

/-- Captions that are written once depend on the anchors only. -/
theorem once_agrees (setting : Setting) (users : Bool) (node : Node) :
    NodeAgrees setting (fun _ => false) (fun _ => false) users (fun _ => True) node := by
  refine node_agrees (fun _ _ _ _ => trivial) (fun node hf ih => ?_) node
  intro scope place indent
  obtain ⟨hk, index, media, hm⟩ := isFigure_iff.1 hf
  have hmark : Agree users (fun _ => True) (pure ()) (pure ()) [] fun _ => True := .pure trivial
  rw [visit_unmarked, ofNode_figure scope indent hk hm]
  have hby := visitBy_figure_rel (.agree _ _ users fun _ => True) scope place indent media
    (fun inner hb scope place indent _ => ih inner hb scope place indent) (fun _ => hmark)
    (rfl : (Captions.unmarked fun _ => false).left node.content index = _) rfl
  exact fun _ => hby fun _ _ => trivial

end WikiPress.Render
