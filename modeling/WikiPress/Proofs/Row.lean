import WikiPress.Proofs.Quiet
import WikiPress.Proofs.Walk

/-!
# Rows

A row has one open bar for each of its cells, besides those that the texts of its cells bring along. A cell
brings none unless a list, a panel or code stands right in it.
-/

namespace WikiPress.Render

/-! ## The bar of a cell -/

theorem openBars_rowMarkup (cells : List String) : openBars (rowMarkup cells) = openBarsIn cells := by
  have h := openBars_lines ' ' (by decide) (by decide) cells
  rw [rowMarkup, openBars, String.toList_append, show "\n".toList = '\n' :: [] from rfl,
    openBarsAfter_gap (by decide) (by decide)]
  exact h

theorem openBarsAfter_plain {cs : List Char} (h : ∀ c ∈ cs, c ≠ '|' ∧ c ≠ '\\') (ds : List Char) :
    openBarsAfter false (cs ++ ds) = openBarsAfter false ds := by
  induction cs with
  | nil => rfl
  | cons c cs ih =>
    have hc := h c (List.mem_cons_self ..)
    have hg := openBarsAfter_gap hc.1 hc.2 false [] (cs ++ ds)
    rw [List.cons_append, ← ih fun d hd => h d (List.mem_cons_of_mem _ hd)]
    exact hg.trans (Nat.zero_add _)

/-- What spans are written with. -/
def isSpanChar (c : Char) : Bool :=
  c.isDigit || c = '.' || c = '+'

theorem spanText_chars (node : Node) : ∀ c ∈ (spanText node).toList, isSpanChar c = true := by
  have number (n : Nat) : ∀ c ∈ (toString n).toList, isSpanChar c = true := by
    intro c hc
    rw [Nat.toString_eq_repr, Nat.toList_repr] at hc
    simp [isSpanChar, Nat.isDigit_of_mem_toDigits (by decide) (by decide) hc]
  have hdot : ∀ c ∈ ".".toList, isSpanChar c = true := List.forall_mem_singleton.2 (by decide)
  have hplus : ∀ c ∈ "+".toList, isSpanChar c = true := List.forall_mem_singleton.2 (by decide)
  unfold spanText
  split
  · simp only [String.toList_append, List.forall_mem_append]
    exact ⟨⟨⟨number _, hdot⟩, number _⟩, hplus⟩
  · simp only [String.toList_append, List.forall_mem_append]
    exact ⟨number _, hplus⟩
  · simp only [String.toList_append, List.forall_mem_append]
    exact ⟨⟨hdot, number _⟩, hplus⟩
  · exact nofun

theorem ne_of_isSpanChar {c d : Char} (h : isSpanChar c = true) (hd : isSpanChar d = false) : c ≠ d := by
  rintro rfl
  exact Bool.false_ne_true (hd.symm.trans h)

theorem plain_spanText (node : Node) : ∀ c ∈ (spanText node).toList, c ≠ '|' ∧ c ≠ '\\' := fun c hc =>
  ⟨ne_of_isSpanChar (spanText_chars node c hc) (by decide), ne_of_isSpanChar (spanText_chars node c hc) (by decide)⟩

/-- The bar of a cell is open, and nothing before it closes a bar after it. -/
theorem openBars_cell (node : Node) (cell : Cell) : openBars (Cell.markup node cell) = 1 + openBars cell.text := by
  have style : ∀ c ∈ (if cell.complex then "a" else "").toList, c ≠ '|' ∧ c ≠ '\\' := by
    split
    · exact List.forall_mem_singleton.2 (by decide)
    · exact nofun
  rw [openBars, Cell.markup, String.toList_append, String.toList_append, String.toList_append, List.append_assoc,
    List.append_assoc, openBarsAfter_plain (plain_spanText node), openBarsAfter_plain style]
  show openBarsAfter false ('|' :: ' ' :: cell.text.toList) = _
  simp [openBarsAfter, openBars]

/-! ## Cells of a row -/

def renderedCells (setting : Setting) (scope : Scope) (place : Place) (i : Nat) : List Node → RenderM (List Cell)
  | [] => return []
  | node :: nodes => do
    let cell ← visitCell .marked setting scope (i :: place) node
    return cell :: (← renderedCells setting scope place (i + 1) nodes)

/-- Does a list, a panel or code stand right in a cell? -/
def holdsBlock (node : Node) : Bool :=
  node.content.any fun inner => isComplex inner.kind

/-- Where a block stands in a cell, all that is in the cell is quiet. -/
def quietBlocks (setting : Setting) (node : Node) : Prop :=
  holdsBlock node = true → ∀ inner ∈ node.content, inner.everywhere (isQuiet setting) = true

section
variable {setting : Setting} {scope : Scope}

theorem visitParts_any (place : Place) : ∀ (nodes : List Node) (i : Nat) (memory : Memory),
    ((visitParts .marked setting scope place i nodes).run memory).1.any (fun part => isComplex part.1) =
      nodes.any fun inner => isComplex inner.kind
  | [], _, _ => rfl
  | node :: nodes, i, _ =>
    congrArg (isComplex node.kind || ·) (visitParts_any place nodes (i + 1) _)

/-- Only blocks that are not quiet bring open bars into a cell. -/
theorem closed_visitCell (place : Place) {node : Node} (h : quietBlocks setting node) (memory : Memory) :
    Closed ((visitCell .marked setting scope place node).run memory).1.text := by
  rw [visitCell_def]
  by_cases hb : holdsBlock node = true
  · have hp := parts_closed (fun inner hi => node_closed inner (h hb inner hi)) scope place memory trivial
    exact closed_ofParts hp.1
  · refine closed_ofParts_simple ?_
    exact (visitParts_any place node.content 0 memory).trans (Bool.eq_false_iff.2 hb)

theorem run_visitCells (place : Place) : ∀ (nodes : List Node) (i : Nat) (memory : Memory),
    ((visitCells .marked setting scope place i nodes).run memory).1 =
      (nodes.zip ((renderedCells setting scope place i nodes).run memory).1).map fun pair => Cell.markup pair.1 pair.2
  | [], _, _ => rfl
  | _ :: nodes, i, _ => congrArg (_ :: ·) (run_visitCells place nodes (i + 1) _)

theorem length_renderedCells (place : Place) : ∀ (nodes : List Node) (i : Nat) (memory : Memory),
    ((renderedCells setting scope place i nodes).run memory).1.length = nodes.length
  | [], _, _ => rfl
  | _ :: nodes, i, _ => congrArg (· + 1) (length_renderedCells place nodes (i + 1) _)

theorem openBarsIn_markup : ∀ {nodes : List Node} {cells : List Cell}, cells.length = nodes.length →
    openBarsIn ((nodes.zip cells).map fun pair => Cell.markup pair.1 pair.2) =
      nodes.length + openBarsIn (cells.map Cell.text)
  | [], [], _ => rfl
  | node :: nodes, cell :: cells, h => by
    have rest := openBarsIn_markup (Nat.succ.inj h)
    simp only [List.zip_cons_cons, List.map_cons, List.length_cons, openBarsIn, openBars_cell, rest]
    omega

theorem openBars_visitCells (place : Place) (nodes : List Node) (i : Nat) (memory : Memory) :
    openBarsIn ((visitCells .marked setting scope place i nodes).run memory).1 =
      nodes.length + openBarsIn (((renderedCells setting scope place i nodes).run memory).1.map Cell.text) := by
  rw [run_visitCells, openBarsIn_markup (length_renderedCells place nodes i memory)]

theorem closed_of_mem_zip (setting : Setting) (scope : Scope) (place : Place) :
    ∀ (nodes : List Node) (i : Nat) (memory : Memory), ∀ pair ∈ nodes.zip ((renderedCells setting scope place i nodes).run memory).1,
      quietBlocks setting pair.1 → Closed pair.2.text
  | [], _, _, _, hp => nomatch hp
  | node :: nodes, i, memory, pair, hp => by
    rcases List.mem_cons.1 hp with rfl | hp
    · exact fun h => closed_visitCell (i :: place) h memory
    · exact closed_of_mem_zip setting scope place nodes (i + 1) _ pair hp

end

/-- **Bars of a row.** In a row there is an open bar for each of its cells, and those that the texts of
the cells bring along. A cell brings none if no block stands in it, or if all that is in it is quiet. -/
theorem row_openBars (node : Node) (place : Place) (context : Context) :
    let row := ((Walk.renderRow place node).run context).1
    let cells := ((renderedCells context.setting context.scope place 0 node.content).run context.memory).1
    openBars row = node.content.length + openBarsIn (cells.map Cell.text) ∧
      (∀ pair ∈ node.content.zip cells, quietBlocks context.setting pair.1 → openBars pair.2.text = 0) ∧
      ((∀ cell ∈ node.content, quietBlocks context.setting cell) → openBars row = node.content.length) := by
  intro row cells
  have hrow : openBars row = node.content.length + openBarsIn (cells.map Cell.text) := by
    rw [← openBars_visitCells, ← openBars_rowMarkup]
    show openBars ((Walk.renderRow place node).run context).1 = _
    rw [Walk.renderRow_eq]
    have hdef := visitRow_def .marked context.setting context.scope place node
    exact congrArg (fun step => openBars (step.run context.memory).1) hdef
  have hcells := closed_of_mem_zip context.setting context.scope place node.content 0 context.memory
  refine ⟨hrow, hcells, fun h => ?_⟩
  have hzip : (node.content.zip cells).map Prod.snd = cells :=
    List.map_snd_zip (Nat.le_of_eq (length_renderedCells place node.content 0 context.memory))
  have hsum : openBarsIn (cells.map Cell.text) = 0 := by
    refine openBarsIn_of_closed fun s hs => ?_
    rw [← hzip, List.map_map] at hs
    obtain ⟨pair, hp, rfl⟩ := List.mem_map.1 hs
    exact hcells pair hp (h pair.1 (List.of_mem_zip hp).1)
  rw [hrow, hsum, Nat.add_zero]

/-- A bar in an item of a list is escaped, and code without bars brings none. -/
theorem row_openBars_quiet :
    let text (s : String) : Node := { type := "text", text := some s }
    let list : Node := { type := "bulletList", content := [{ type := "listItem", content := [text "a|b"] }] }
    let code : Node := { type := "codeBlock", content := [text "ab"] }
    let row : Node := { type := "tableRow", content := [{ type := "tableCell", content := [list, code] }] }
    (∀ cell ∈ row.content, quietBlocks {} cell) ∧ openBars ((Walk.renderRow [] row).run {}).1 = 1 := by
  intro text list code row
  have hq : ∀ cell ∈ row.content, quietBlocks {} cell := by
    unfold quietBlocks
    decide
  exact ⟨hq, (row_openBars row [] {}).2.2 hq⟩

/-- The code in a cell is taken over as it is, and the bars in it are open. -/
theorem not_row_openBars_eq_length :
    ¬ ∀ (node : Node) (place : Place) (context : Context),
      openBars ((Walk.renderRow place node).run context).1 = node.content.length := by
  intro h
  let code : Node := { type := "codeBlock", content := [{ type := "text", text := some "a|b" }] }
  let row : Node := { type := "tableRow", content := [{ type := "tableCell", content := [code] }] }
  exact absurd (h row [] {}) (by decide)

end WikiPress.Render
