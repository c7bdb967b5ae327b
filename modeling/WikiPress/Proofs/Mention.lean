import WikiPress.Proofs.Carry
import WikiPress.Proofs.Record

/-!
# Mentions are seen

No user is mentioned without a word: what is rendered of nodes that mention someone is not blank.
-/

namespace WikiPress.Render

def Seen (s : String) : Prop :=
  Text.visible s.toList ≠ []

instance (s : String) : Decidable (Seen s) :=
  inferInstanceAs (Decidable (Text.visible s.toList ≠ []))

namespace Seen

variable {a b : String}

theorem of_shows (h : Seen a) (hs : Shows a b) : Seen b := by
  intro hb
  rw [Shows, hb, List.sublist_nil] at hs
  exact h hs

theorem append (h : Seen a) (b : String) : Seen (a ++ b) :=
  h.of_shows ((Shows.refl a).before b)

theorem after (h : Seen b) (a : String) : Seen (a ++ b) :=
  h.of_shows ((Shows.refl b).after a)

end Seen

theorem seen_image (options : Options) (node : Node) (caption : Option String) :
    Seen (imageBlock options node caption) := by
  have himage : Seen ("image::" ++ mediaFileName options node ++ "[]\n") := by
    have hkey : Seen "image::" := by decide
    exact (hkey.append _).append _
  unfold imageBlock
  simp only
  cases imageTitle? node caption with
  | none => exact himage
  | some title =>
    simp only
    split
    · exact himage
    · exact himage.after _

theorem seen_mention (inCell : Bool) (node : Node) (memory : Memory) :
    Seen ((renderMention inCell node).run memory).1 := by
  have hsign : Seen "@" := by decide
  have hname (name : String) : Seen (escapeInCell inCell ("@" ++ name)) :=
    (hsign.append name).of_shows (shows_escapeInCell inCell _)
  unfold renderMention
  by_cases h : mentionedName node ≠ "" ∧ (node.text? "id").getD "" ≠ ""
  · rw [if_pos h]
    exact hname _
  · rw [if_neg h]
    exact hname _

/-- If one of the nodes mentions someone, the text is seen. -/
def Tells (setting : Setting) (nodes : List Node) (text : String) : Prop :=
  (∃ node ∈ nodes, mentionsIn setting node ≠ []) → Seen text

section
variable {setting : Setting}

theorem tells_carries (setting : Setting) : Carries (Tells setting) where
  nil := nofun
  append h h' := by
    rintro ⟨node, hn, hm⟩
    rcases List.mem_append.1 hn with hn | hn
    · exact (h ⟨node, hn, hm⟩).append _
    · exact (h' ⟨node, hn, hm⟩).after _
  of_shows h hs := fun hn => (h hn).of_shows hs

/-! ## Nodes -/

theorem leaf_tells {node : Node} {scope : Scope} {indent : String} {leaf : Leaf}
    (hrule : Rule.ofNode setting scope indent node = .leaf leaf) :
    Gives (renderLeaf setting scope node leaf) fun fragments => Tells setting [node] (String.join fragments) := by
  have hm := (recorded_of_leaf hrule).2
  cases leaf with
  | mention =>
    refine gives_of_run fun memory _ => ?_
    show Seen (String.join [((renderMention scope.inCell node).run memory).1])
    rw [join_singleton]
    exact seen_mention scope.inCell node memory
  | _ => exact gives_of_run fun memory => by simp [Tells, hm, Leaf.mentions]

theorem figure_tells (nodes : List Node) (scope : Scope) (place : Place) (indent : String) (node : Node) (index : Nat)
    (media : Node) :
    Gives (visitBy .once setting scope place indent node (.figure index media)) fun fragments =>
      Tells setting nodes (String.join fragments) := by
  have anything {α : Type} (step : RenderM α) : Gives step fun _ => True := gives_of_run fun _ => trivial
  refine .bind (anything _) fun caption _ => .bind (anything _) fun _ _ => .bind (anything _) fun others _ => .pure ?_
  intro _
  rw [String.join_cons]
  exact ((seen_image setting.options media _).after _).append _

/-- **Mentions are seen.** What is rendered of a node that mentions someone is not blank. -/
theorem node_tells (setting : Setting) (node : Node) :
    NodeCarries .once (fun _ => True) setting (Tells setting) node := by
  refine Node.below_induction (fun node ih => ?_) node
  intro scope place indent
  rw [Captions.once, visit_unmarked, ← Captions.once]
  by_cases hl : ∃ leaf, Rule.ofNode setting scope indent node = .leaf leaf
  · obtain ⟨leaf, hleaf⟩ := hl
    rw [hleaf]
    exact leaf_tells hleaf
  by_cases hf : ∃ index media, Rule.ofNode setting scope indent node = .figure index media
  · obtain ⟨index, media, hfigure⟩ := hf
    rw [hfigure]
    exact figure_tells [node] scope place indent node index media
  have hleaf : ∀ leaf, Rule.ofNode setting scope indent node ≠ .leaf leaf := fun leaf he => hl ⟨leaf, he⟩
  have hby := visitBy_carries (tells_carries setting) rfl hleaf (fun index media he => hf ⟨index, media, he⟩)
    (fun notices => gives_of_run (Q := fun _ => True) fun _ => trivial) ih place
  apply hby.mono
  intro fragments htells
  rw [visits_ofNode] at htells
  rintro ⟨inner, hi, hm⟩
  rw [List.mem_singleton.1 hi, (recorded_of_not_leaf hleaf).2, Ne, List.flatMap_eq_nil_iff] at hm
  exact htells (by simpa using hm)

end

end WikiPress.Render
