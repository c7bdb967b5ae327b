import WikiPress.Proofs.PlainText
import WikiPress.Proofs.Trimming

/-!
# Lists as outlines

Lists in lists are written as their outline: a line for each item in the order of the document, set in and marked by
the depth of its list (`render_outline`). The line ends that lists are wrapped in are all taken off again but for those
of the outermost.
-/

namespace WikiPress.Render

/-! ## Trees of lists -/

/-- How a node stands in a tree of lists. An item is a paragraph with lists behind it, and only texts are below that. -/
def isOutlined (node : Node) : Bool :=
  match node.kind with
  | .bulletList | .orderedList => !node.content.isEmpty && node.content.all (·.kind = .listItem)
  | .taskList => !node.content.isEmpty && node.content.all fun task => task.kind = .taskItem || task.kind = .taskList
  | .listItem =>
    match node.content with
    | [] => false
    | first :: lists => first.kind = .paragraph && lists.all (·.kind.isList)
  | .paragraph | .taskItem => node.content.all (·.kind = .text)
  | .text => node.marks.isEmpty
  | _ => false

/-! ## Outlines -/

structure Item where
  depth : Nat
  sign : Char
  box : String
  text : String
  deriving DecidableEq, Repr

def Item.line (item : Item) : String :=
  repeated (2 * (item.depth - 1)) ' ' ++ repeated item.depth item.sign ++ " " ++ item.box ++ item.text

/-- The texts of nodes, without those below them. -/
def ownTexts (nodes : List Node) : String :=
  String.join (nodes.map Node.ownText)

mutual

/-- The items of a tree, in the order of the document. Depth and sign are those of the list around the node. -/
def items (depth : Nat) (sign : Char) : Node → List Item
  | ⟨type, attrs, content, marks, text⟩ =>
    match Node.Kind.ofType type with
    | .bulletList | .taskList => itemsIn (depth + 1) '*' content
    | .orderedList => itemsIn (depth + 1) '.' content
    | .listItem => itemsIn depth sign content
    | .paragraph => [⟨depth, sign, "", Text.trimEnd (ownTexts content)⟩]
    | .taskItem => [⟨depth, sign, checkbox ⟨type, attrs, content, marks, text⟩ ++ " ", Text.trim (ownTexts content)⟩]
    | _ => []

def itemsIn (depth : Nat) (sign : Char) : List Node → List Item
  | [] => []
  | node :: nodes => items depth sign node ++ itemsIn depth sign nodes

end

/-- The lines of a tree. -/
def outline (depth : Nat) (sign : Char) (node : Node) : List String :=
  (items depth sign node).map Item.line

section
variable {depth : Nat} {sign : Char} {node : Node}

theorem itemsIn_eq (depth : Nat) (sign : Char) :
    ∀ nodes : List Node, itemsIn depth sign nodes = nodes.flatMap (items depth sign)
  | [] => rfl
  | node :: nodes => by rw [itemsIn, itemsIn_eq depth sign nodes, List.flatMap_cons]

/-- The sign of a kind of list. -/
def listSign (kind : Node.Kind) : Char :=
  if kind = .orderedList then '.' else '*'

theorem items_list (h : node.kind.isList = true) (depth : Nat) (sign : Char) :
    items depth sign node = node.content.flatMap (items (depth + 1) (listSign node.kind)) := by
  obtain ⟨type, attrs, content, marks, text⟩ := node
  rw [← itemsIn_eq]
  simp only [Node.kind] at h ⊢
  unfold items
  cases hk : Node.Kind.ofType type <;> rw [hk] at h <;> first | rfl | cases h

theorem items_listItem (h : node.kind = .listItem) (depth : Nat) (sign : Char) :
    items depth sign node = node.content.flatMap (items depth sign) := by
  obtain ⟨type, attrs, content, marks, text⟩ := node
  rw [← itemsIn_eq, items, show Node.Kind.ofType type = .listItem from h]

theorem items_paragraph (h : node.kind = .paragraph) (depth : Nat) (sign : Char) :
    items depth sign node = [⟨depth, sign, "", Text.trimEnd (ownTexts node.content)⟩] := by
  obtain ⟨type, attrs, content, marks, text⟩ := node
  rw [items, show Node.Kind.ofType type = .paragraph from h]

theorem items_taskItem (h : node.kind = .taskItem) (depth : Nat) (sign : Char) :
    items depth sign node = [⟨depth, sign, checkbox node ++ " ", Text.trim (ownTexts node.content)⟩] := by
  obtain ⟨type, attrs, content, marks, text⟩ := node
  rw [items, show Node.Kind.ofType type = .taskItem from h]

mutual

theorem le_depth : ∀ (node : Node) (depth : Nat) (sign : Char), ∀ item ∈ items depth sign node, depth ≤ item.depth
  | ⟨type, attrs, content, marks, text⟩, depth, sign => by
    intro item hi
    unfold items at hi
    split at hi
    · exact Nat.le_of_succ_le (le_depthIn content (depth + 1) '*' item hi)
    · exact Nat.le_of_succ_le (le_depthIn content (depth + 1) '*' item hi)
    · exact Nat.le_of_succ_le (le_depthIn content (depth + 1) '.' item hi)
    · exact le_depthIn content depth sign item hi
    · exact (List.mem_singleton.1 hi) ▸ Nat.le_refl depth
    · exact (List.mem_singleton.1 hi) ▸ Nat.le_refl depth
    · cases hi

theorem le_depthIn : ∀ (nodes : List Node) (depth : Nat) (sign : Char),
    ∀ item ∈ itemsIn depth sign nodes, depth ≤ item.depth
  | [], _, _, _, hi => nomatch hi
  | node :: nodes, depth, sign, item, hi => by
    rcases List.mem_append.1 hi with hi | hi
    · exact le_depth node depth sign item hi
    · exact le_depthIn nodes depth sign item hi

end

/-! ## What stands where -/

theorem items_of_outlined (h : isOutlined node = true) (hk : node.kind = .bulletList ∨ node.kind = .orderedList) :
    node.content ≠ [] ∧ ∀ item ∈ node.content, item.kind = .listItem := by
  rcases hk with hk | hk <;> simpa [isOutlined, hk] using h

theorem tasks_of_outlined (h : isOutlined node = true) (hk : node.kind = .taskList) :
    node.content ≠ [] ∧ ∀ task ∈ node.content, task.kind = .taskItem ∨ task.kind = .taskList := by
  simpa [isOutlined, hk] using h

theorem parts_of_outlined (h : isOutlined node = true) (hk : node.kind = .listItem) :
    ∃ first lists, node.content = first :: lists ∧ first.kind = .paragraph ∧
      ∀ list ∈ lists, list.kind.isList = true := by
  simp only [isOutlined, hk] at h
  cases hc : node.content with
  | nil =>
    rw [hc] at h
    cases h
  | cons first lists => exact ⟨first, lists, rfl, by simpa [hc] using h⟩

theorem texts_of_outlined (h : isOutlined node = true) (hk : node.kind = .paragraph ∨ node.kind = .taskItem) :
    ∀ text ∈ node.content, text.kind = .text := by
  rcases hk with hk | hk <;> simpa [isOutlined, hk] using h

theorem marks_of_outlined (h : node.everywhere isOutlined = true) (hk : node.kind = .text) : node.marks = [] := by
  have := ((Node.everywhere_iff isOutlined node).1 h).1
  simpa [isOutlined, hk] using this

theorem kind_of_isList {kind : Node.Kind} (h : kind.isList = true) :
    kind = .bulletList ∨ kind = .orderedList ∨ kind = .taskList := by
  cases kind <;> simp [Node.Kind.isList] at h ⊢

theorem ne_text_of_isList {kind : Node.Kind} (h : kind.isList = true) : kind ≠ .text := by
  rcases kind_of_isList h with rfl | rfl | rfl <;> decide

theorem list_of_outlined (h : isOutlined node = true) (hk : node.kind.isList = true) :
    node.content ≠ [] ∧ ∀ inner ∈ node.content, inner.kind ≠ .text := by
  rcases kind_of_isList hk with hk | hk | hk
  · obtain ⟨hc, hitems⟩ := items_of_outlined h (Or.inl hk)
    exact ⟨hc, fun item hi => by simp [hitems item hi]⟩
  · obtain ⟨hc, hitems⟩ := items_of_outlined h (Or.inr hk)
    exact ⟨hc, fun item hi => by simp [hitems item hi]⟩
  · obtain ⟨hc, htasks⟩ := tasks_of_outlined h hk
    exact ⟨hc, fun task ht => by rcases htasks task ht with hk | hk <;> simp [hk]⟩

/-- No list is empty, so no tree is. -/
theorem items_ne_nil (node : Node) (h : node.everywhere isOutlined = true) :
    node.kind ≠ .text → ∀ depth sign, items depth sign node ≠ [] := by
  refine Node.everywhere_induction (motive := fun node => node.kind ≠ .text → ∀ depth sign, items depth sign node ≠ [])
    (fun node hnode _ ih hk depth sign => ?_) node h
  have inside {inner : Node} (hi : inner ∈ node.content) (hk : inner.kind ≠ .text) (depth : Nat) (sign : Char) :
      node.content.flatMap (items depth sign) ≠ [] :=
    fun he => ih inner (.child hi) hk depth sign (List.flatMap_eq_nil_iff.1 he inner hi)
  by_cases hl : node.kind.isList = true
  · obtain ⟨hc, hi⟩ := list_of_outlined hnode hl
    obtain ⟨inner, hinner⟩ := List.exists_mem_of_ne_nil _ hc
    rw [items_list hl]
    exact inside hinner (hi inner hinner) _ _
  cases hkind : node.kind with
  | listItem =>
    obtain ⟨first, lists, hc, hfirst, -⟩ := parts_of_outlined hnode hkind
    rw [items_listItem hkind]
    exact inside (hc ▸ List.mem_cons_self) (by simp [hfirst]) depth sign
  | paragraph => rw [items_paragraph hkind]; exact List.cons_ne_nil _ _
  | taskItem => rw [items_taskItem hkind]; exact List.cons_ne_nil _ _
  | text => exact absurd hkind hk
  | bulletList | orderedList | taskList => exact absurd (by rw [hkind]; rfl) hl
  | _ => simp [isOutlined, hkind] at hnode

end

/-! ## Lines -/

theorem repeated_add (m n : Nat) (c : Char) : repeated (m + n) c = repeated m c ++ repeated n c := by
  rw [repeated, repeated, repeated, ← String.ofList_append, List.replicate_append_replicate]

theorem outline_list {node : Node} (h : node.kind.isList = true) (depth : Nat) (sign : Char) :
    outline depth sign node = node.content.flatMap (outline (depth + 1) (listSign node.kind)) := by
  rw [outline, items_list h, List.map_flatMap]
  rfl

theorem outline_listItem {node : Node} (h : node.kind = .listItem) (depth : Nat) (sign : Char) :
    outline depth sign node = node.content.flatMap (outline depth sign) := by
  rw [outline, items_listItem h, List.map_flatMap]
  rfl

theorem outline_ne_nil {node : Node} (h : node.everywhere isOutlined = true) (hk : node.kind ≠ .text) (depth : Nat)
    (sign : Char) : outline depth sign node ≠ [] :=
  fun he => items_ne_nil node h hk depth sign (List.map_eq_nil_iff.1 he)

/-- A list in a list begins with a blank, so trimming it takes off the line end before it and no more. -/
theorem trimLineStart_outline {depth : Nat} (hd : depth ≠ 0) {sign : Char} {list : Node}
    (hk : list.kind.isList = true) :
    Text.trimLineStart ("\n" ++ String.intercalate "\n" (outline depth sign list)) =
      String.intercalate "\n" (outline depth sign list) := by
  have hdepth : ∀ item ∈ items depth sign list, 2 ≤ item.depth := by
    intro item hi
    rw [items_list hk, ← itemsIn_eq] at hi
    have := le_depthIn _ _ _ item hi
    omega
  unfold outline
  generalize items depth sign list = lines at hdepth
  cases lines with
  | nil => rfl
  | cons item rest =>
    obtain ⟨n, hn⟩ : ∃ n, 2 * (item.depth - 1) = 1 + n := ⟨2 * (item.depth - 1) - 1, by
      have := hdepth item (List.mem_cons_self ..)
      omega⟩
    have hline : item.line =
        " " ++ (repeated n ' ' ++ repeated item.depth item.sign ++ " " ++ item.box ++ item.text) := by
      rw [Item.line, hn, repeated_add]
      simp only [String.append_assoc]
      rfl
    rw [List.map_cons, hline, String.intercalate_cons_append]
    apply String.toList_inj.1
    simp [String.toList_append]

/-- Lines that were put together in parts are lines put together. -/
theorem intercalate_flatMap {α : Type} {f : α → List String} (separator : String) {l : List α} (h : ∀ a ∈ l, f a ≠ []) :
    String.intercalate separator (l.map fun a => String.intercalate separator (f a)) =
      String.intercalate separator (l.flatMap f) := by
  induction l with
  | nil => rfl
  | cons a l ih =>
    obtain ⟨ha, hl⟩ := List.forall_mem_cons.1 h
    rw [List.map_cons, List.flatMap_cons]
    cases l with
    | nil => simp
    | cons b l =>
      have hb : (b :: l).flatMap f ≠ [] := by
        rw [List.flatMap_cons]
        exact List.append_ne_nil_of_left_ne_nil (hl b (List.mem_cons_self ..)) _
      rw [String.intercalate_cons_of_ne_nil (by simp), ih hl, String.intercalate_append_of_ne_nil ha hb]

/-! ## Texts -/

/-- The step gives the value, and leaves the memory as it is. -/
abbrev Writes {α : Type} (memory : Memory) (step : RenderM α) (value : α) : Prop :=
  Holds (· = memory) step (· = value)

theorem writes_of_run {α : Type} {memory : Memory} {step : RenderM α} {value : α}
    (h : step.run memory = (value, memory)) : Writes memory step value := by
  intro before hbefore
  rw [hbefore, h]
  exact ⟨rfl, rfl⟩

section
variable {memory : Memory} {setting : Setting} {scope : Scope} {place : Place} {indent : String} {node : Node}

theorem holds_visit (hm : Unmarked memory) {Q : List String → Prop}
    (h : Holds (· = memory)
      (visitBy .marked setting scope place indent node (Rule.ofNode setting scope indent node)) Q) :
    Holds (· = memory) (visit .marked setting scope place indent node) Q := by
  have htake : Writes memory (takeSkip place) false := writes_of_run (takeSkip_of_unmarked hm place)
  rw [visit_def]
  refine htake.bind fun skipped hs => ?_
  subst hs
  exact h

theorem textMarkup_of_marks_nil (h : node.marks = []) (options : Options) (anchors : List String) :
    textMarkup options anchors false node = node.ownText := by
  have hlinked : linkedText options anchors node = Text.trimEnd node.ownText := by
    rw [linkedText, h]
    rfl
  simp only [textMarkup, hlinked, Text.trimEnd_append_blankEnd, escapeInCell, Bool.false_eq_true, if_false, ite_self]

theorem writes_text (hm : Unmarked memory) (hc : scope.inCell = false) (hk : node.kind = .text)
    (h : node.marks = []) : Writes memory (visit .marked setting scope place indent node) [node.ownText] := by
  refine holds_visit hm ?_
  rw [Rule.ofNode, hk]
  have hrun : (renderText setting.options scope.inCell node).run memory = (node.ownText, memory) := by
    rw [← textMarkup_of_marks_nil h setting.options memory.anchors, hc]
    unfold renderText
    rw [h]
    rfl
  exact (writes_of_run hrun).bind fun text ht => .pure (congrArg (fun text => [text]) ht)

/-- What is written for texts without marks is the texts. -/
theorem holds_texts (hm : Unmarked memory) (hc : scope.inCell = false)
    (hk : node.kind = .paragraph ∨ node.kind = .taskItem) (h : node.everywhere isOutlined = true) :
    Holds (· = memory) (visitAll .marked setting scope place indent 0 node.content)
      (String.join · = ownTexts node.content) := by
  obtain ⟨hnode, hinside⟩ := (Node.everywhere_iff isOutlined node).1 h
  have htext (text : Node) (ht : text ∈ node.content) (i : Nat) :
      Writes memory (visit .marked setting scope (i :: place) indent text) [text.ownText] := by
    have hkind := texts_of_outlined hnode hk text ht
    exact writes_text hm hc hkind (marks_of_outlined (hinside text ht) hkind)
  have gathers : Gathers fun nodes (fragments : List String) => String.join fragments = ownTexts nodes := by
    refine ⟨rfl, fun hx hy => ?_⟩
    rw [String.join_append, hx, hy, ownTexts, ownTexts, ownTexts, List.map_append, String.join_append]
  refine visitAll_holds gathers fun text ht i => (htext text ht i).mono fun fragments hf => ?_
  rw [hf]
  rfl

theorem trimEnd_paragraph (text : String) :
    Text.trimEnd (String.join (paragraphMarkup "" text)) = Text.trimEnd text := by
  unfold paragraphMarkup
  by_cases h : Text.isAllBlank text = true
  · rw [if_pos h, ← String.empty_append (s := text), Text.trimEnd_append_blank h]
    rfl
  · rw [if_neg h, join_singleton, String.empty_append]
    exact Text.trimEnd_append_blank (by decide)

theorem holds_paragraph (hm : Unmarked memory) (hc : scope.inCell = false) (hk : node.kind = .paragraph)
    (h : node.everywhere isOutlined = true) :
    Holds (· = memory) (visit .marked setting scope place "" node) fun fragments =>
      Text.trimEnd (String.join fragments) = Text.trimEnd (ownTexts node.content) := by
  refine holds_visit hm ?_
  rw [Rule.ofNode, hk]
  refine (holds_texts hm hc (Or.inl hk) h).bind fun fragments hf => .pure ?_
  rw [hf]
  exact trimEnd_paragraph _

theorem writes_content (hm : Unmarked memory) (hc : scope.inCell = false) (hk : node.kind = .taskItem)
    (h : node.everywhere isOutlined = true) :
    Writes memory (visitContent .marked setting scope place node) (ownTexts node.content) := by
  rw [visitContent_def]
  exact (holds_texts hm hc (Or.inr hk) h).bind fun fragments hf => .pure hf

end

/-! ## Lists -/

/-- Where a list of items is met, outside of cells and in the margin for its depth. -/
structure AtItems (scope : Scope) (indent : String) (sign : Char) : Prop where
  outside : scope.inCell = false
  deep : scope.listDepth ≠ 0
  indent_eq : indent = repeated (2 * (scope.listDepth - 1)) ' '
  sign_eq : sign = if scope.bulleted then '*' else '.'

/-- A list is written as its outline, wherever it stands outside of cells. -/
def WritesOutline (memory : Memory) (setting : Setting) (list : Node) : Prop :=
  ∀ (scope : Scope) (place : Place) (sign : Char), scope.inCell = false →
    Writes memory (visit .marked setting scope place (repeated (2 * scope.listDepth) ' ') list)
      (listMarkup scope (outline scope.listDepth sign list))

theorem listMarkup_flatMap (scope : Scope) {f : Node → List String} {nodes : List Node}
    (h : ∀ node ∈ nodes, f node ≠ []) :
    listMarkup scope (nodes.map fun node => String.intercalate "\n" (f node)) = listMarkup scope (nodes.flatMap f) := by
  cases nodes with
  | nil => rfl
  | cons node nodes =>
    have hne : ((node :: nodes).flatMap f).isEmpty = false := by
      have := h node (List.mem_cons_self ..)
      simp [this]
    rw [listMarkup, listMarkup, hne, intercalate_flatMap "\n" h]
    rfl

section
variable {memory : Memory} {setting : Setting} {scope : Scope} {place : Place} {indent : String} {sign : Char}
  {node : Node}

theorem gathers_map (f : Node → String) : Gathers fun nodes lines => lines = nodes.map f :=
  ⟨rfl, fun hx hy => by rw [hx, hy, List.map_append]⟩

/-- A list in a list loses the line end before it. -/
theorem nested (hd : scope.listDepth ≠ 0) (h : node.everywhere isOutlined = true) (hk : node.kind.isList = true)
    (sign : Char) : Text.trimLineStart (String.join (listMarkup scope (outline scope.listDepth sign node))) =
      String.intercalate "\n" (outline scope.listDepth sign node) := by
  have hne : (outline scope.listDepth sign node).isEmpty = false := by simp [outline_ne_nil h (ne_text_of_isList hk)]
  simp only [listMarkup, hne, hd, false_and, if_false, Bool.false_eq_true, join_singleton]
  exact trimLineStart_outline hd hk

theorem AtItems.indent_nested (h : AtItems scope indent sign) :
    indent ++ "  " = repeated (2 * scope.listDepth) ' ' := by
  have hd := h.deep
  obtain ⟨n, hn⟩ : ∃ n, scope.listDepth = n + 1 := ⟨scope.listDepth - 1, by omega⟩
  rw [h.indent_eq, hn, Nat.mul_add, repeated_add]
  rfl

theorem AtItems.line (h : AtItems scope indent sign) :
    margin scope indent ++ repeated (max 1 scope.listDepth) sign = repeated (2 * (scope.listDepth - 1)) ' ' ++
      repeated scope.listDepth sign := by
  have hd := h.deep
  rw [margin, h.outside, h.indent_eq, Nat.max_eq_right (by omega)]
  rfl

/-- The lists behind the paragraph of an item. -/
theorem writes_lists (hat : AtItems scope indent sign) {lists : List Node}
    (hk : ∀ list ∈ lists, list.kind.isList = true) (h : ∀ list ∈ lists, list.everywhere isOutlined = true)
    (hw : ∀ list ∈ lists, WritesOutline memory setting list) (i : Nat) :
    Writes memory (visitItemParts .marked setting scope place indent true i lists)
      (lists.map fun list => String.intercalate "\n" (outline scope.listDepth sign list)) := by
  induction lists generalizing i with
  | nil => exact .pure rfl
  | cons list lists ih =>
    simp only [List.forall_mem_cons] at hk h hw
    have hindent : partIndent indent true list.kind = repeated (2 * scope.listDepth) ' ' := by
      rw [← hat.indent_nested, partIndent, if_pos hk.1, if_pos rfl]
    have hlines (text : String) : partLines scope indent true list.kind text = [Text.trimLineStart text] := by
      simp [partLines, hk.1]
    rw [visitItemParts, hindent]
    refine (hw.1 scope (i :: place) sign hat.outside).bind fun fragments hf => ?_
    subst hf
    simp only [hlines, nested hat.deep h.1 hk.1, List.isEmpty_cons, Bool.not_false, Bool.or_true]
    refine (ih hk.2 h.2 hw.2 (i + 1)).bind fun rest hr => .pure ?_
    rw [hr]
    rfl

/-- The paragraph of an item, with the marker, and the lists behind it. -/
theorem writes_parts (hm : Unmarked memory) (hat : AtItems scope indent sign) {first : Node} {lists : List Node}
    (hfirst : first.kind = .paragraph) (hk : ∀ list ∈ lists, list.kind.isList = true)
    (h : ∀ part ∈ first :: lists, part.everywhere isOutlined = true)
    (hw : ∀ list ∈ lists, WritesOutline memory setting list) :
    Writes memory (visitItemParts .marked setting scope place indent false 0 (first :: lists))
      ((first :: lists).map fun part => String.intercalate "\n" (outline scope.listDepth sign part)) := by
  obtain ⟨hpart, hlists⟩ := List.forall_mem_cons.1 h
  have hindent : partIndent indent false first.kind = "" := by rw [hfirst]; rfl
  have hlines (text : String) : partLines scope indent false first.kind text = [openingLine scope indent text] := by
    rw [partLines, if_pos ⟨hfirst, rfl⟩]
  have houtline : outline scope.listDepth sign first =
      [margin scope indent ++ marker scope ++ " " ++ Text.trimEnd (ownTexts first.content)] := by
    rw [outline, items_paragraph hfirst, marker, ← hat.sign_eq, hat.line]
    simp only [List.map_cons, List.map_nil, Item.line, String.append_empty]
  rw [visitItemParts, hindent]
  refine (holds_paragraph hm hat.outside hfirst hpart).bind fun fragments hf => ?_
  simp only [hlines, openingLine, hf, List.isEmpty_cons, Bool.not_false, Bool.or_true]
  refine (writes_lists hat hk hlists hw 1).bind fun rest hr => .pure ?_
  rw [hr, List.map_cons, houtline, String.intercalate_singleton]
  rfl

theorem writes_item (hm : Unmarked memory) (hat : AtItems scope indent sign) (hk : node.kind = .listItem)
    (h : node.everywhere isOutlined = true)
    (hw : ∀ list ∈ node.content, list.kind.isList = true → WritesOutline memory setting list) :
    Writes memory (visitItem .marked setting scope place indent node)
      (String.intercalate "\n" (outline scope.listDepth sign node)) := by
  obtain ⟨hnode, hinside⟩ := (Node.everywhere_iff isOutlined node).1 h
  obtain ⟨first, lists, hc, hfirst, hlists⟩ := parts_of_outlined hnode hk
  have hne : ∀ part ∈ node.content, outline scope.listDepth sign part ≠ [] := by
    rw [hc] at hinside ⊢
    obtain ⟨-, hinsides⟩ := List.forall_mem_cons.1 hinside
    have hparagraph : first.kind ≠ .text := by simp [hfirst]
    exact List.forall_mem_cons.2 ⟨outline_ne_nil (hinside first (List.mem_cons_self ..)) hparagraph _ _,
      fun list hl => outline_ne_nil (hinsides list hl) (ne_text_of_isList (hlists list hl)) _ _⟩
  rw [visitItem_def, outline_listItem hk, ← intercalate_flatMap "\n" hne]
  rw [hc] at hinside hw ⊢
  have hwrites : ∀ list ∈ lists, WritesOutline memory setting list := fun list hl =>
    hw list (List.mem_cons_of_mem _ hl) (hlists list hl)
  refine (writes_parts hm hat hfirst hlists hinside hwrites).bind fun lines hl => .pure ?_
  rw [hl]
  rfl

/-- A task is a line, and a list of tasks among tasks is set in. -/
theorem writes_tasks (hm : Unmarked memory) (hat : AtItems scope indent '*') (hk : node.kind = .taskList)
    (h : node.everywhere isOutlined = true)
    (hw : ∀ list ∈ node.content, list.kind.isList = true → WritesOutline memory setting list) :
    Writes memory (visitTasks .marked setting scope place indent 0 node.content)
      (node.content.map fun task => String.intercalate "\n" (outline scope.listDepth '*' task)) := by
  obtain ⟨hnode, hinside⟩ := (Node.everywhere_iff isOutlined node).1 h
  obtain ⟨-, htasks⟩ := tasks_of_outlined hnode hk
  refine visitTasks_holds (gathers_map _) (fun task ht hi hl => ?_) (fun task ht hi i => ?_) fun task ht hl i => ?_
  · exact absurd (htasks task ht) (not_or.2 ⟨hi, hl⟩)
  · refine (writes_content hm hat.outside hi (hinside task ht)).mono fun text htext => ?_
    rw [htext, List.map_singleton, outline, items_taskItem hi, List.map_singleton, String.intercalate_singleton,
      taskMarkup, hat.line, Item.line]
    simp only [String.append_assoc]
  · have hlist : task.kind.isList = true := by rw [hl]; rfl
    rw [hat.indent_nested]
    refine (hw task ht hlist scope (i :: place) '*' hat.outside).mono fun fragments hf => ?_
    rw [hf, nested hat.deep (hinside task ht) hlist]
    rfl

theorem atItems_inList (hc : scope.inCell = false) (bulleted : Bool) :
    AtItems (scope.inList bulleted) (repeated (2 * scope.listDepth) ' ') (if bulleted then '*' else '.') where
  outside := hc
  deep := Nat.succ_ne_zero scope.listDepth
  indent_eq := rfl
  sign_eq := rfl

theorem writes_items (hm : Unmarked memory) (hat : AtItems scope indent sign)
    (hk : node.kind = .bulletList ∨ node.kind = .orderedList) (h : node.everywhere isOutlined = true)
    (hw : ∀ item ∈ node.content, ∀ list ∈ item.content, list.kind.isList = true → WritesOutline memory setting list) :
    Writes memory (visitItems .marked setting scope place indent 0 node.content)
      (node.content.map fun item => String.intercalate "\n" (outline scope.listDepth sign item)) := by
  obtain ⟨hnode, hinside⟩ := (Node.everywhere_iff isOutlined node).1 h
  obtain ⟨-, hitems⟩ := items_of_outlined hnode hk
  refine visitItems_holds (gathers_map _) (fun item hi hk => absurd (hitems item hi) hk) fun item hi hk i => ?_
  exact (writes_item hm hat hk (hinside item hi) (hw item hi)).mono fun line hl => congrArg (fun line => [line]) hl

/-- **Every list in the tree is written as its outline.** -/
theorem writes_outline (hm : Unmarked memory) (node : Node) :
    node.everywhere isOutlined = true → node.kind.isList = true → WritesOutline memory setting node := by
  -- The lists in an item stand two steps below the list, so the induction is on all that is below.
  refine Node.below_induction (motive := fun node => node.everywhere isOutlined = true → node.kind.isList = true →
    WritesOutline memory setting node) (fun node ih h hk scope place sign hc => ?_) node
  obtain ⟨hnode, hinside⟩ := (Node.everywhere_iff isOutlined node).1 h
  have below {inner : Node} (hb : Node.Below inner node) (hk : inner.kind.isList = true) :
      WritesOutline memory setting inner := ih inner hb (Node.everywhere_of_below hb h) hk
  have whole {lines : List String} (sign' : Char) (hs : sign' = listSign node.kind)
      (hl : lines = node.content.map fun inner => String.intercalate "\n" (outline (scope.listDepth + 1) sign' inner)) :
      listMarkup scope lines = listMarkup scope (outline scope.listDepth sign node) := by
    have hne : ∀ inner ∈ node.content, outline (scope.listDepth + 1) sign' inner ≠ [] := fun inner hi =>
      outline_ne_nil (hinside inner hi) ((list_of_outlined hnode hk).2 inner hi) _ _
    rw [hl, listMarkup_flatMap scope hne, outline_list hk, hs]
  have list (bulleted : Bool) (hb : node.kind = .bulletList ∨ node.kind = .orderedList)
      (hs : (if bulleted then '*' else '.') = listSign node.kind) :
      Writes memory (visitBy .marked setting scope place (repeated (2 * scope.listDepth) ' ') node (.list bulleted))
        (listMarkup scope (outline scope.listDepth sign node)) :=
    (writes_items hm (atItems_inList hc bulleted) hb h fun item hi list hl => below (.grandchild hl hi)).bind
      fun lines hl => .pure (whole _ hs hl)
  refine holds_visit hm ?_
  rcases kind_of_isList hk with hk | hk | hk
  · rw [Rule.ofNode, hk]
    exact list true (Or.inl hk) (by rw [hk]; rfl)
  · rw [Rule.ofNode, hk]
    exact list false (Or.inr hk) (by rw [hk]; rfl)
  · rw [Rule.ofNode, hk]
    exact (writes_tasks hm (atItems_inList hc true) hk h fun list hl => below (.child hl)).bind
      fun lines hl => .pure (whole '*' (by rw [hk]; rfl) hl)

end

/-- **A tree of lists is written as its outline.** Blank lines set it apart, and the context stays as it is. -/
theorem render_outline (setting : Setting) (place : Place) (list : Node) (hk : list.kind.isList = true)
    (h : list.everywhere isOutlined = true) :
    (Walk.render place "" list).run { setting } =
      (["\n" ++ String.intercalate "\n" ((items 0 '*' list).map Item.line) ++ "\n\n"], { setting }) := by
  have hne : (outline 0 '*' list).isEmpty = false := by simp [outline_ne_nil h (ne_text_of_isList hk)]
  have hlist : listMarkup {} (outline 0 '*' list) =
      ["\n" ++ String.intercalate "\n" ((items 0 '*' list).map Item.line) ++ "\n\n"] := by
    rw [listMarkup, hne]
    rfl
  have hunmarked : Unmarked {} := rfl
  have hwrites : WritesOutline {} setting list := writes_outline hunmarked list h hk
  obtain ⟨htext, hmemory⟩ := hwrites {} place '*' rfl {} rfl
  have hrun : (visit .marked setting {} place "" list).run {} = (_, {}) := Prod.ext (htext.trans hlist) hmemory
  rw [Walk.render_eq]
  exact congrArg (fun result => (result.1, ({ setting, memory := result.2 } : Context))) hrun

theorem render_outline_mixed :
    let text (s : String) : Node := { type := "text", text := some s }
    let item (s : String) (lists : List Node) : Node :=
      { type := "listItem", content := { type := "paragraph", content := [text s] } :: lists }
    let task (state s : String) : Node :=
      { type := "taskItem", attrs := [("state", .string state)], content := [text s] }
    let tasks (content : List Node) : Node := { type := "taskList", content }
    let list : Node :=
      { type := "bulletList"
        content :=
          [item "One " [{
             type := "orderedList"
             content := [item "two" [], item "three" [tasks [tasks [task "DONE" " four "], task "TODO" "five"]]] }],
           item "six" []] }
    list.kind.isList = true ∧ list.everywhere isOutlined = true ∧
      ((Walk.render [] "" list).run {}).1 =
        ["\n* One\n  .. two\n  .. three\n      **** [x] four\n    *** [ ] five\n* six\n\n"] := by
  intro text item task tasks list
  have hk : list.kind.isList = true := by decide +kernel
  have h : list.everywhere isOutlined = true := by decide +kernel
  have htext : "\n" ++ String.intercalate "\n" ((items 0 '*' list).map Item.line) ++ "\n\n" =
      "\n* One\n  .. two\n  .. three\n      **** [x] four\n    *** [ ] five\n* six\n\n" := by decide +kernel
  refine ⟨hk, h, ?_⟩
  rw [render_outline {} [] list hk h, htext]

end WikiPress.Render
