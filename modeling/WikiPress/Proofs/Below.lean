import WikiPress.Document.Node

/-!
# Below a node

Induction over documents: what holds of a node whenever it holds of all nodes below it holds of every
node. Rendering reaches over a row to its cells, so the nodes just below do not suffice.
-/

namespace WikiPress.Node

inductive Below : Node → Node → Prop
  | child {inner outer : Node} : inner ∈ outer.content → Below inner outer
  | deeper {inner node outer : Node} : Below inner node → node ∈ outer.content → Below inner outer

namespace Below

variable {a b c d : Node}

theorem grandchild (h : a ∈ b.content) (h' : b ∈ c.content) : Below a c :=
  .deeper (.child h) h'

end Below

theorem sizeOf_lt_of_mem {inner outer : Node} (h : inner ∈ outer.content) : sizeOf inner < sizeOf outer := by
  obtain ⟨type, attrs, content, marks, text⟩ := outer
  have := List.sizeOf_lt_of_mem h
  simp only [mk.sizeOf_spec] at this ⊢
  omega

theorem sizeOf_lt_of_below {inner outer : Node} (h : Below inner outer) : sizeOf inner < sizeOf outer := by
  induction h with
  | child hm => exact sizeOf_lt_of_mem hm
  | deeper _ hm ih => exact Nat.lt_trans ih (sizeOf_lt_of_mem hm)

theorem below_induction {motive : Node → Prop}
    (step : ∀ outer, (∀ inner, Below inner outer → motive inner) → motive outer) (node : Node) : motive node :=
  step node fun inner _ => below_induction step inner
termination_by sizeOf node
decreasing_by exact sizeOf_lt_of_below ‹_›

/-! ## Everywhere in a node -/

mutual

/-- A condition on the node and on all nodes below it. -/
def everywhere (p : Node → Bool) : Node → Bool
  | ⟨type, attrs, content, marks, text⟩ => p ⟨type, attrs, content, marks, text⟩ && everywhereIn p content

def everywhereIn (p : Node → Bool) : List Node → Bool
  | [] => true
  | node :: nodes => everywhere p node && everywhereIn p nodes

end

theorem everywhereIn_iff (p : Node → Bool) (nodes : List Node) :
    everywhereIn p nodes = true ↔ ∀ node ∈ nodes, everywhere p node = true := by
  induction nodes with
  | nil => simp [everywhereIn]
  | cons node nodes ih => simp [everywhereIn, ih]

theorem everywhere_iff (p : Node → Bool) (node : Node) :
    everywhere p node = true ↔ p node = true ∧ ∀ inner ∈ node.content, everywhere p inner = true := by
  obtain ⟨type, attrs, content, marks, text⟩ := node
  rw [everywhere, Bool.and_eq_true, everywhereIn_iff]

theorem everywhere_of_below {p : Node → Bool} {inner outer : Node} (h : Below inner outer) :
    everywhere p outer = true → everywhere p inner = true := by
  induction h with
  | child hm => exact fun ho => ((everywhere_iff p _).1 ho).2 _ hm
  | deeper _ hm ih => exact fun ho => ih (((everywhere_iff p _).1 ho).2 _ hm)

/-- Induction over a node in which a condition holds everywhere. -/
theorem everywhere_induction {p : Node → Bool} {motive : Node → Prop}
    (step : ∀ outer, p outer = true → (∀ inner, Below inner outer → p inner = true) →
      (∀ inner, Below inner outer → motive inner) → motive outer)
    (node : Node) (h : everywhere p node = true) : motive node := by
  revert h
  refine below_induction (motive := fun node => everywhere p node = true → motive node) (fun outer ih h => ?_) node
  have inside : ∀ inner, Below inner outer → everywhere p inner = true := fun inner hb => everywhere_of_below hb h
  apply step outer ((everywhere_iff p outer).1 h).1
  · intro inner hb
    exact ((everywhere_iff p inner).1 (inside inner hb)).1
  · intro inner hb
    exact ih inner hb (inside inner hb)

end WikiPress.Node
