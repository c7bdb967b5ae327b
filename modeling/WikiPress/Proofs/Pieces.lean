import WikiPress.Proofs.Fragment
import WikiPress.Proofs.Row

/-!
# Rows read back

A row of simple cells is one line, and its open bars are those of its cells. Split there it gives back the span and
the text of each cell: between two bars the last blank ends a text, for there is none in a span.
-/

namespace WikiPress.Render

/-! ## Splitting at open bars -/

/-- The pieces of a text between its open bars. `escaped` says whether a backslash comes before the text. -/
def piecesAfter (escaped : Bool) : List Char → List (List Char)
  | [] => [[]]
  | c :: cs =>
    if c = '|' ∧ escaped = false then [] :: piecesAfter false cs
    else
      match piecesAfter (c = '\\') cs with
      | [] => [[c]]
      | piece :: pieces => (c :: piece) :: pieces

def pieces (s : String) : List String :=
  (piecesAfter false s.toList).map String.ofList

/-- A text without open bars goes before the first piece of what follows. -/
theorem piecesAfter_append {escaped : Bool} {cs ds piece : List Char} {pieces : List (List Char)}
    (h : openBarsAfter escaped cs = 0) (hd : piecesAfter (escapedAfter escaped cs) ds = piece :: pieces) :
    piecesAfter escaped (cs ++ ds) = (cs ++ piece) :: pieces := by
  induction cs generalizing escaped with
  | nil => exact hd
  | cons c cs ih =>
    rw [openBarsAfter, Nat.add_eq_zero_iff] at h
    have hbar : ¬ (c = '|' ∧ escaped = false) := fun hc => by simp [hc] at h
    rw [List.cons_append, piecesAfter, if_neg hbar, ih h.2 hd]
    rfl

theorem piecesAfter_closed {escaped : Bool} {cs : List Char} (h : openBarsAfter escaped cs = 0) :
    piecesAfter escaped cs = [cs] := by
  have hend : piecesAfter escaped (cs ++ []) = [cs ++ []] := piecesAfter_append h rfl
  rwa [List.append_nil] at hend

theorem piecesAfter_bar {escaped : Bool} {cs : List Char} (h : openBarsAfter escaped cs = 0)
    (hx : escapedAfter escaped cs = false) (ds : List Char) :
    piecesAfter escaped (cs ++ '|' :: ds) = cs :: piecesAfter false ds := by
  have hbar : piecesAfter (escapedAfter escaped cs) ('|' :: ds) = [] :: piecesAfter false ds := by
    rw [hx, piecesAfter, if_pos ⟨rfl, rfl⟩]
  rw [piecesAfter_append h hbar, List.append_nil]

/-! ## Lines of simple cells -/

/-- A cell as it stands in a row: its span and its text. -/
structure Field where
  span : String
  text : String
  deriving DecidableEq, Repr

def Field.markup (field : Field) : String :=
  field.span ++ "| " ++ field.text

structure Field.Simple (field : Field) : Prop where
  span : ∀ c ∈ field.span.toList, isSpanChar c = true
  closed : Closed field.text
  line : '\n' ∉ field.text.toList

/-- The pieces behind the bars of cells: the text of a cell, and the span of the next one. -/
def behindBars : List Field → List String
  | [] => []
  | [field] => [" " ++ field.text]
  | field :: next :: fields => (" " ++ field.text ++ " " ++ next.span) :: behindBars (next :: fields)

theorem toList_markup (field : Field) :
    field.markup.toList = field.span.toList ++ '|' :: ' ' :: field.text.toList := by
  simp [Field.markup]

section
variable {field : Field} (h : field.Simple)
include h

theorem Field.Simple.escapedAfter_span {before : List Char} (hx : escapedAfter false before = false) :
    escapedAfter false (before ++ field.span.toList) = false := by
  rw [escapedAfter_append, hx]
  exact escapedAfter_of_ne fun c hc => ne_of_isSpanChar (h.span c hc) (by decide)

theorem Field.Simple.openBarsAfter_span {before : List Char} (hb : openBarsAfter false before = 0) :
    openBarsAfter false (before ++ field.span.toList) = 0 := by
  rw [openBarsAfter_append, hb, openBarsAfter_of_not_mem]
  exact fun hc => ne_of_isSpanChar (h.span '|' hc) (by decide) rfl

theorem Field.Simple.openBarsAfter_text : openBarsAfter false (' ' :: field.text.toList) = 0 := by
  have hblank : openBarsAfter false (' ' :: field.text.toList) = openBars field.text := by simp [openBarsAfter, openBars]
  exact hblank.trans h.closed

end

/-- Each bar between simple cells ends a piece. `before` stands for what follows the bar before the first of them. -/
theorem pieces_line (fields : List Field) {field : Field} (h : ∀ f ∈ field :: fields, f.Simple) {before : List Char}
    (hb : openBarsAfter false before = 0) (hx : escapedAfter false before = false) :
    piecesAfter false (before ++ (String.intercalate " " ((field :: fields).map Field.markup)).toList) =
      (before ++ field.span.toList) :: (behindBars (field :: fields)).map String.toList := by
  induction fields generalizing field before with
  | nil =>
    have hfield := h field (List.mem_singleton_self field)
    have hline : before ++ (String.intercalate " " ([field].map Field.markup)).toList =
        (before ++ field.span.toList) ++ '|' :: ' ' :: field.text.toList := by
      simp [toList_markup]
    rw [hline, piecesAfter_bar (hfield.openBarsAfter_span hb) (hfield.escapedAfter_span hx),
      piecesAfter_closed hfield.openBarsAfter_text]
    simp [behindBars]
  | cons next fields ih =>
    obtain ⟨hfield, hfields⟩ := List.forall_mem_cons.1 h
    let between := ' ' :: field.text.toList ++ [' ']
    have hline : before ++ (String.intercalate " " ((field :: next :: fields).map Field.markup)).toList =
        (before ++ field.span.toList) ++
          '|' :: (between ++ (String.intercalate " " ((next :: fields).map Field.markup)).toList) := by
      simp [between, toList_markup, String.intercalate_cons_cons]
    have hbetween : openBarsAfter false between = 0 := by
      rw [openBarsAfter_append, hfield.openBarsAfter_text, openBarsAfter_of_not_mem (by decide)]
    have hblank : escapedAfter false between = false := by
      rw [escapedAfter_append]
      rfl
    rw [hline, piecesAfter_bar (hfield.openBarsAfter_span hb) (hfield.escapedAfter_span hx),
      ih hfields hbetween hblank]
    simp [between, behindBars]

theorem pieces_eq (fields : List Field) {field : Field} (h : ∀ f ∈ field :: fields, f.Simple) :
    pieces (String.intercalate " " ((field :: fields).map Field.markup)) =
      field.span :: behindBars (field :: fields) := by
  have hline := @pieces_line fields field h [] rfl rfl
  rw [List.nil_append, List.nil_append] at hline
  rw [pieces, hline]
  simp

theorem line_of_simple {fields : List Field} (h : ∀ field ∈ fields, field.Simple) :
    '\n' ∉ (String.intercalate " " (fields.map Field.markup)).toList := by
  have hfield : ∀ field ∈ fields, '\n' ∉ field.markup.toList := by
    intro field hf hc
    obtain ⟨hspan, -, hline⟩ := h field hf
    have hne : '\n' ∉ field.span.toList := fun hc => ne_of_isSpanChar (hspan '\n' hc) (by decide) rfl
    simp [toList_markup, hne, hline] at hc
  clear h
  induction fields with
  | nil => simp
  | cons field fields ih =>
    obtain ⟨hf, hr⟩ := List.forall_mem_cons.1 hfield
    cases fields with
    | nil => simpa using hf
    | cons next fields =>
      have hblank : '\n' ∉ " ".toList := by decide
      rw [List.map_cons, List.map_cons, String.intercalate_cons_cons, ← List.map_cons, String.toList_append,
        String.toList_append, List.mem_append, List.mem_append]
      exact not_or.2 ⟨not_or.2 ⟨hf, hblank⟩, ih hr⟩

/-! ## Reading fields -/

/-- Cuts a text at its last blank. -/
def cutLast (s : String) : String × String :=
  match Text.cutAt ' ' s.toList.reverse with
  | none => ("", s)
  | some (after, before) => (.ofList before.reverse, .ofList after.reverse)

/-- The fields behind a span, from the pieces that follow it. -/
def readBehind (span : String) : List String → List Field
  | [] => []
  | [piece] => [⟨span, .ofList (piece.toList.drop 1)⟩]
  | piece :: pieces =>
    let (text, next) := cutLast (.ofList (piece.toList.drop 1))
    ⟨span, text⟩ :: readBehind next pieces

/-- The spans and texts of the cells in a row, from its line. -/
def readRow (line : String) : List Field :=
  match pieces line with
  | [] => []
  | span :: behind => readBehind span behind

theorem cutLast_append (text : String) {span : String} (h : ' ' ∉ span.toList) :
    cutLast (text ++ " " ++ span) = (text, span) := by
  have hreverse : (text ++ " " ++ span).toList.reverse = span.toList.reverse ++ ' ' :: text.toList.reverse := by simp
  rw [cutLast, hreverse, Text.cutAt_append (by simpa using h)]
  simp

theorem readBehind_cons (span piece : String) {pieces : List String} (h : pieces ≠ []) :
    readBehind span (piece :: pieces) =
      ⟨span, (cutLast (.ofList (piece.toList.drop 1))).1⟩ ::
        readBehind (cutLast (.ofList (piece.toList.drop 1))).2 pieces := by
  rw [readBehind]
  exact h

theorem behindBars_ne_nil (field : Field) (fields : List Field) : behindBars (field :: fields) ≠ [] := by
  cases fields <;> simp [behindBars]

theorem readBehind_eq (fields : List Field) {field : Field} (h : ∀ f ∈ field :: fields, f.Simple) :
    readBehind field.span (behindBars (field :: fields)) = field :: fields := by
  induction fields generalizing field with
  | nil => simp [behindBars, readBehind]
  | cons next fields ih =>
    obtain ⟨-, hfields⟩ := List.forall_mem_cons.1 h
    have hspan : ' ' ∉ next.span.toList := fun hc =>
      ne_of_isSpanChar ((hfields next (List.mem_cons_self ..)).span ' ' hc) (by decide) rfl
    have hpiece : String.ofList ((" " ++ field.text ++ " " ++ next.span).toList.drop 1) =
        field.text ++ " " ++ next.span := by
      rw [← String.toList_inj]
      simp
    rw [behindBars, readBehind_cons _ _ (behindBars_ne_nil next fields), hpiece, cutLast_append field.text hspan,
      ih hfields]

theorem getElem?_behindBars (fields : List Field) (i : Nat) :
    (behindBars fields)[i]? = fields[i]?.map fun field =>
      " " ++ field.text ++ (fields[i + 1]?.elim "" fun next => " " ++ next.span) := by
  induction fields generalizing i with
  | nil => rfl
  | cons field fields ih =>
    cases fields with
    | nil => cases i <;> simp [behindBars]
    | cons next fields =>
      cases i with
      | zero => simp [behindBars, String.append_assoc]
      | succ i => exact ih i

theorem length_behindBars : ∀ fields : List Field, (behindBars fields).length = fields.length
  | [] => rfl
  | [_] => rfl
  | _ :: next :: fields => congrArg (· + 1) (length_behindBars (next :: fields))

/-! ## Rows of simple cells -/

theorem closed_of_not_complex {parts : List (Node.Kind × String)} (h : (Cell.ofParts parts).complex = false) :
    Closed (Cell.ofParts parts).text ∧ '\n' ∉ (Cell.ofParts parts).text.toList := by
  obtain ⟨hblock, hline⟩ := Bool.or_eq_false_iff.1 h
  refine ⟨closed_ofParts_simple hblock, fun hmem => ?_⟩
  exact Bool.false_ne_true (hline.symm.trans (List.contains_iff_mem.2 hmem))

/-- The fields of nodes that are rendered as cells. -/
def fieldsOf (nodes : List Node) (cells : List Cell) : List Field :=
  (nodes.zip cells).map fun (node, cell) => ⟨spanText node, cell.text⟩

theorem rendered_simple {setting : Setting} {scope : Scope} (place : Place) : ∀ (nodes : List Node) (i : Nat)
    (memory : Memory), ∀ cell ∈ ((renderedCells setting scope place i nodes).run memory).1,
      cell.complex = false → Closed cell.text ∧ '\n' ∉ cell.text.toList
  | [], _, _, _, hc => nomatch hc
  | node :: nodes, i, memory, cell, hc => by
    rcases List.mem_cons.1 hc with rfl | hc
    · rw [visitCell_def]
      exact closed_of_not_complex
    · exact rendered_simple place nodes (i + 1) _ cell hc

section
variable {nodes : List Node} {cells : List Cell}

theorem fields_simple (h : ∀ cell ∈ cells, Closed cell.text ∧ '\n' ∉ cell.text.toList) :
    ∀ field ∈ fieldsOf nodes cells, field.Simple := by
  intro field hf
  obtain ⟨pair, hp, rfl⟩ := List.mem_map.1 hf
  obtain ⟨hclosed, hline⟩ := h pair.2 (List.of_mem_zip hp).2
  exact ⟨spanText_chars pair.1, hclosed, hline⟩

theorem markup_fields (h : ∀ cell ∈ cells, cell.complex = false) :
    ((nodes.zip cells).map fun pair => Cell.markup pair.1 pair.2) = (fieldsOf nodes cells).map Field.markup := by
  rw [fieldsOf, List.map_map]
  refine List.map_congr_left fun pair hp => ?_
  have hsimple := h pair.2 (List.of_mem_zip hp).2
  simp [Cell.markup, Field.markup, hsimple]

end

section
variable {nodes : List Node} {cells : List Cell} (h : cells.length = nodes.length)
include h

theorem map_span_fieldsOf : (fieldsOf nodes cells).map Field.span = nodes.map spanText := by
  calc (fieldsOf nodes cells).map Field.span = ((nodes.zip cells).map Prod.fst).map spanText := by
        rw [fieldsOf, List.map_map, List.map_map]
        rfl
    _ = nodes.map spanText := by rw [List.map_fst_zip (Nat.le_of_eq h.symm)]

theorem map_text_fieldsOf : (fieldsOf nodes cells).map Field.text = cells.map Cell.text := by
  calc (fieldsOf nodes cells).map Field.text = ((nodes.zip cells).map Prod.snd).map Cell.text := by
        rw [fieldsOf, List.map_map, List.map_map]
        rfl
    _ = cells.map Cell.text := by rw [List.map_snd_zip (Nat.le_of_eq h)]

/-- The piece behind the bar of a cell. -/
theorem getElem?_behindBars_fieldsOf {i : Nat} {cell : Cell} (hi : cells[i]? = some cell) :
    (behindBars (fieldsOf nodes cells))[i]? =
      some (" " ++ cell.text ++ nodes[i + 1]?.elim "" fun next => " " ++ spanText next) := by
  have htext : ((fieldsOf nodes cells)[i]?).map Field.text = some cell.text := by
    rw [← List.getElem?_map, map_text_fieldsOf h, List.getElem?_map, hi, Option.map_some]
  have hspan : ((fieldsOf nodes cells)[i + 1]?).map Field.span = nodes[i + 1]?.map spanText := by
    rw [← List.getElem?_map, map_span_fieldsOf h, List.getElem?_map]
  have hnext := congrArg (Option.elim · "" (" " ++ ·)) hspan
  obtain ⟨field, hfield, htext⟩ := Option.map_eq_some_iff.1 htext
  rw [getElem?_behindBars, hfield, Option.map_some, htext]
  simp only [Option.elim_map] at hnext
  exact congrArg (fun span => some (" " ++ cell.text ++ span)) hnext

end

theorem run_renderRow (node : Node) (place : Place) (context : Context) :
    let cells := ((renderedCells context.setting context.scope place 0 node.content).run context.memory).1
    ((Walk.renderRow place node).run context).1 =
      rowMarkup ((node.content.zip cells).map fun pair => Cell.markup pair.1 pair.2) := by
  intro cells
  have hdef := visitRow_def .marked context.setting context.scope place node
  have hcells : ((visitCells .marked context.setting context.scope place 0 node.content).run context.memory).1 =
      (node.content.zip cells).map fun pair => Cell.markup pair.1 pair.2 :=
    run_visitCells place node.content 0 context.memory
  rw [Walk.renderRow_eq]
  exact (congrArg (fun step => (step.run context.memory).1) hdef).trans (congrArg rowMarkup hcells)

/-- **Rows of simple cells can be read back.** A row of simple cells is one line. Split at its open bars it gives the
span of the first cell, and then the text of each cell with the span of the next one, so that spans and texts are
found again. -/
theorem row_readBack (node : Node) (place : Place) (context : Context) (hne : node.content ≠ []) :
    let row := ((Walk.renderRow place node).run context).1
    let cells := ((renderedCells context.setting context.scope place 0 node.content).run context.memory).1
    (∀ cell ∈ cells, cell.complex = false) → ∃ line, row = line ++ "\n" ∧ '\n' ∉ line.toList ∧
      (pieces line).length = node.content.length + 1 ∧ (pieces line)[0]? = node.content[0]?.map spanText ∧
      (∀ i cell, cells[i]? = some cell → (pieces line)[i + 1]? =
        some (" " ++ cell.text ++ node.content[i + 1]?.elim "" fun next => " " ++ spanText next)) ∧
      readRow line = (node.content.zip cells).map fun (child, cell) => ⟨spanText child, cell.text⟩ := by
  intro row cells hcells
  have hlength : cells.length = node.content.length := length_renderedCells place node.content 0 context.memory
  have hsimple : ∀ field ∈ fieldsOf node.content cells, field.Simple := fields_simple fun cell hc =>
    rendered_simple place node.content 0 context.memory cell hc (hcells cell hc)
  have hcount : (fieldsOf node.content cells).length = node.content.length := by
    simp [fieldsOf, hlength]
  obtain ⟨field, fields, hfields⟩ : ∃ field fields, fieldsOf node.content cells = field :: fields :=
    List.exists_cons_of_ne_nil fun h => hne (List.length_eq_zero_iff.1 (hcount ▸ congrArg List.length h))
  have hpieces := pieces_eq fields (hfields ▸ hsimple)
  have hread := readBehind_eq fields (hfields ▸ hsimple)
  rw [← hfields] at hpieces hread
  have hrow : row = String.intercalate " " ((fieldsOf node.content cells).map Field.markup) ++ "\n" := by
    rw [← markup_fields hcells]
    exact run_renderRow node place context
  refine ⟨_, hrow, line_of_simple hsimple, ?_, ?_, ?_, ?_⟩
  · rw [hpieces, List.length_cons, length_behindBars, hcount]
  · have hspan := congrArg (·[0]?) (map_span_fieldsOf hlength)
    simp only [hfields, List.map_cons, List.getElem?_cons_zero, List.getElem?_map] at hspan
    rw [hpieces, List.getElem?_cons_zero, hspan]
  · intro i cell hi
    rw [hpieces]
    exact getElem?_behindBars_fieldsOf hlength hi
  · rw [readRow, hpieces]
    exact hread

/-- A text that ends like an escaped bar, one that looks like a span, and one that is empty. -/
theorem row_readBack_spans :
    let cell (span : List (String × Nat)) (s : String) : Node :=
      { type := "tableCell", attrs := span.map fun (key, n) => (key, .number (.integer n)),
        content := [{ type := "paragraph", content := [{ type := "text", text := some s }] }] }
    let both := cell [("colspan", 2), ("rowspan", 3)] "a|b\\"
    let node : Node := { type := "tableRow", content := [both, cell [] "c 2+", cell [("rowspan", 12)] ""] }
    let row := ((Walk.renderRow [] node).run {}).1
    let cells := ((renderedCells {} {} [] 0 node.content).run {}).1
    node.content ≠ [] ∧ (∀ cell ∈ cells, cell.complex = false) ∧
      ∃ line, row = line ++ "\n" ∧ readRow line = [⟨"2.3+", "a\\|b\\"⟩, ⟨"", "c 2+"⟩, ⟨".12+", ""⟩] := by
  intro cell both node row cells
  have hne : node.content ≠ [] := List.cons_ne_nil _ _
  have hcells : ∀ cell ∈ cells, cell.complex = false := by decide +kernel
  obtain ⟨line, hline, -, -, -, -, hread⟩ := row_readBack node [] {} hne hcells
  have hfields : ((node.content.zip cells).map fun (child, cell) => (⟨spanText child, cell.text⟩ : Field)) =
      [⟨"2.3+", "a\\|b\\"⟩, ⟨"", "c 2+"⟩, ⟨".12+", ""⟩] := by
    decide +kernel
  exact ⟨hne, hcells, line, hline, hread.trans hfields⟩

end WikiPress.Render
