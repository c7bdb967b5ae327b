import WikiPress.Proofs.Below
import WikiPress.Render.Memory

/-!
# Spots

The nodes of a document in the order in which they begin, each with its place. No two of them stand in one place, so
a place tells what comes before it.
-/

namespace WikiPress.Render

/-- A node in its place. -/
abbrev Spot := Place × Node

mutual

/-- A node and all nodes below it, in document order. -/
def spots (place : Place) : Node → List Spot
  | ⟨type, attrs, content, marks, text⟩ =>
    (place, ⟨type, attrs, content, marks, text⟩) :: spotsAll place 0 content

/-- The nodes in a place one after another; `i` is the index of the first. -/
def spotsAll (place : Place) (i : Nat) : List Node → List Spot
  | [] => []
  | node :: nodes => spots (i :: place) node ++ spotsAll place (i + 1) nodes

end

theorem spots_def (place : Place) (node : Node) : spots place node = (place, node) :: spotsAll place 0 node.content := by
  cases node; rfl

/-! ## Places -/

mutual

theorem suffix_of_mem_spots : ∀ (node : Node) (place : Place) {spot : Spot}, spot ∈ spots place node →
    place <:+ spot.1
  | ⟨type, attrs, content, marks, text⟩, place, spot, h => by
    rcases List.mem_cons.1 h with rfl | h
    · exact List.suffix_refl place
    · obtain ⟨j, -, hj⟩ := suffix_of_mem_spotsAll content place 0 h
      exact (List.suffix_cons j place).trans hj

theorem suffix_of_mem_spotsAll : ∀ (nodes : List Node) (place : Place) (i : Nat) {spot : Spot},
    spot ∈ spotsAll place i nodes → ∃ j, i ≤ j ∧ j :: place <:+ spot.1
  | [], _, _, _, h => nomatch h
  | node :: nodes, place, i, spot, h => by
    rcases List.mem_append.1 h with h | h
    · exact ⟨i, Nat.le_refl i, suffix_of_mem_spots node (i :: place) h⟩
    · obtain ⟨j, hj, hs⟩ := suffix_of_mem_spotsAll nodes place (i + 1) h
      exact ⟨j, by omega, hs⟩

end

theorem index_unique {place inner : Place} {i j : Nat} (hi : i :: place <:+ inner) (hj : j :: place <:+ inner) :
    i = j := by
  have hs : i :: place <:+ j :: place := List.suffix_of_suffix_length_le hi hj (Nat.le_refl _)
  exact (List.cons.inj (hs.eq_of_length rfl)).1

/-- Nodes in places of their own. -/
def Apart (spots : List Spot) : Prop :=
  spots.Pairwise fun a b => a.1 ≠ b.1

mutual

theorem spots_apart : ∀ (node : Node) (place : Place), Apart (spots place node)
  | ⟨type, attrs, content, marks, text⟩, place => by
    refine List.pairwise_cons.2 ⟨fun spot hs he => ?_, spotsAll_apart content place 0⟩
    obtain ⟨j, -, hj⟩ := suffix_of_mem_spotsAll content place 0 hs
    rw [← he] at hj
    exact Nat.not_succ_le_self place.length hj.length_le

theorem spotsAll_apart : ∀ (nodes : List Node) (place : Place) (i : Nat), Apart (spotsAll place i nodes)
  | [], _, _ => List.Pairwise.nil
  | node :: nodes, place, i => by
    refine List.pairwise_append.2 ⟨spots_apart node (i :: place), spotsAll_apart nodes place (i + 1), ?_⟩
    intro spot hs spot' hs' he
    have hi := suffix_of_mem_spots node (i :: place) hs
    obtain ⟨j, hj, hsuffix⟩ := suffix_of_mem_spotsAll nodes place (i + 1) hs'
    rw [← he] at hsuffix
    have := index_unique hi hsuffix
    omega

end

namespace Apart

variable {before after before' after' : List Spot} {place : Place} {node node' : Node}

theorem ne_of_before (h : Apart (before ++ (place, node) :: after)) : ∀ spot ∈ before, spot.1 ≠ place := by
  intro spot hs
  exact (List.pairwise_append.1 h).2.2 spot hs _ (List.mem_cons_self ..)

theorem ne_of_after (h : Apart (before ++ (place, node) :: after)) : ∀ spot ∈ after, spot.1 ≠ place := by
  intro spot hs
  exact Ne.symm ((List.pairwise_cons.1 (List.pairwise_append.1 h).2.1).1 spot hs)

theorem takeWhile_eq (h : Apart (before ++ (place, node) :: after)) :
    (before ++ (place, node) :: after).takeWhile (·.1 ≠ place) = before := by
  rw [List.takeWhile_append_of_pos fun spot hs => decide_eq_true (h.ne_of_before spot hs),
    List.takeWhile_cons_of_neg (by simp), List.append_nil]

/-- A place tells what comes before it. -/
theorem before_unique (h : Apart (before ++ (place, node) :: after))
    (he : before ++ (place, node) :: after = before' ++ (place, node') :: after') : before = before' := by
  rw [← h.takeWhile_eq, he]
  exact (he ▸ h).takeWhile_eq

theorem eq_of_mem (h : Apart (before ++ (place, node) :: after)) {spot : Spot}
    (hs : spot ∈ before ++ (place, node) :: after) (hp : spot.1 = place) : spot = (place, node) := by
  rcases List.mem_append.1 hs with hs | hs
  · exact absurd hp (h.ne_of_before spot hs)
  · rcases List.mem_cons.1 hs with rfl | hs
    · rfl
    · exact absurd hp (h.ne_of_after spot hs)

end Apart

end WikiPress.Render
