import WikiPress.Render.Visit

/-!
# Captions

Which caption a figure is titled by, and what the mark of its place does: the node there gives nothing
when it is met, and takes the mark away.
-/

namespace WikiPress.Render

theorem firstCaption?_ge {i c : Nat} : ∀ {nodes : List Node}, firstCaption? i nodes = some c → i ≤ c
  | [], h => by cases h
  | node :: nodes, h => by
    unfold firstCaption? at h
    split at h
    · simp only [Option.some.injEq] at h; omega
    · have := firstCaption?_ge h; omega

theorem firstCaption?_ne_firstMedia? {c index : Nat} {media : Node} :
    ∀ {nodes : List Node} {i : Nat}, firstCaption? i nodes = some c → firstMedia? nodes = some (index, media) →
      c ≠ i + index
  | [], _, hc, _ => nomatch hc
  | node :: nodes, i, hc, hm => by
    unfold firstCaption? at hc
    unfold firstMedia? at hm
    by_cases hk : node.kind = .caption
    · rw [if_pos hk, Option.some.injEq] at hc
      rw [if_neg (by simp [hk]), Option.map_eq_some_iff] at hm
      obtain ⟨⟨j, m⟩, -, he⟩ := hm
      cases he
      omega
    rw [if_neg hk] at hc
    have hge := firstCaption?_ge hc
    by_cases hk' : node.kind = .media
    · rw [if_pos hk'] at hm
      cases hm
      omega
    · rw [if_neg hk', Option.map_eq_some_iff] at hm
      obtain ⟨⟨j, m⟩, hm, he⟩ := hm
      cases he
      have := firstCaption?_ne_firstMedia? hc hm
      omega

/-! ## The marked place -/

section
variable (captions : Captions) (setting : Setting)

theorem visitCaption_place (scope : Scope) (place : Place) (memory : Memory) :
    ∀ (nodes : List Node) (i : Nat),
      ((visitCaption captions setting scope place i nodes).run memory).1.map Prod.fst =
        (firstCaption? i nodes).map (· :: place)
  | [], _ => rfl
  | node :: nodes, i => by
    unfold visitCaption firstCaption?
    by_cases h : node.kind = .caption
    · simp only [if_pos h]; rfl
    · simp only [if_neg h]
      exact visitCaption_place scope place memory nodes (i + 1)

theorem visit_of_skipped {scope : Scope} {place : Place} {indent : String} {memory : Memory}
    (h : memory.skipped = some place) (node : Node) :
    (visit .marked setting scope place indent node).run memory = ([], { memory with skipped := none }) := by
  obtain ⟨type, attrs, content, marks, text⟩ := node
  have ht : takeSkip place memory = (true, { memory with skipped := none }) := if_pos h
  rw [visit]
  show (ite ((takeSkip place memory).1 = true) _ _ : RenderM (List String)) (takeSkip place memory).2 = _
  rw [ht]
  rfl

end

end WikiPress.Render
