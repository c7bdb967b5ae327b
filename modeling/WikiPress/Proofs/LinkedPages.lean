import WikiPress.Link
import WikiPress.Proofs.Below
import WikiPress.Proofs.Fragment

/-!
# Linked pages

The pages that a document is said to point to, beside the pages its links lead to. A link leads to the page that the
URL before its fragment names; the pages of a document are looked up with the fragment.
-/

namespace WikiPress

namespace Text

theorem contains_of_splitFirst {c : Char} {s pattern : String}
    (h : contains (splitFirst c s).1 pattern = true) : contains s pattern = true := by
  unfold splitFirst at h
  cases hc : cutAt c s.toList with
  | none => rwa [hc] at h
  | some parts =>
    rw [hc, contains_iff, String.toList_ofList] at h
    rw [contains_iff, (of_cutAt hc).1]
    exact h.trans (List.prefix_append parts.1 _).isInfix

end Text

namespace Link

/-! ## The URLs of a document -/

theorem mem_urlsBelowAll {url : String} {nodes : List Node} :
    url ∈ urlsBelowAll nodes ↔ ∃ node ∈ nodes, url ∈ urlsBelow node := by
  induction nodes with
  | nil => simp [urlsBelowAll]
  | cons node nodes ih => simp [urlsBelowAll, ih]

theorem mem_urlsBelow_content {url : String} {node : Node} :
    url ∈ urlsBelow node ↔ url ∈ urlsOf node ∨ ∃ inner ∈ node.content, url ∈ urlsBelow inner := by
  obtain ⟨type, attrs, content, marks, text⟩ := node
  rw [urlsBelow, List.mem_append, mem_urlsBelowAll]

theorem mem_urlsBelow_of_below {url : String} {inner node : Node} (h : Node.Below inner node) :
    url ∈ urlsBelow inner → url ∈ urlsBelow node := by
  induction h with
  | child hm => exact fun hu => mem_urlsBelow_content.2 (Or.inr ⟨_, hm, hu⟩)
  | deeper _ hm ih => exact fun hu => mem_urlsBelow_content.2 (Or.inr ⟨_, hm, ih hu⟩)

theorem urlsOf_of_mem_urlsBelow {url : String} (doc : Node) :
    url ∈ urlsBelow doc → ∃ node, (node = doc ∨ node.Below doc) ∧ url ∈ urlsOf node := by
  induction doc using Node.below_induction with
  | step doc ih =>
  intro hu
  rcases mem_urlsBelow_content.1 hu with hown | ⟨inner, hm, hinner⟩
  · exact ⟨doc, Or.inl rfl, hown⟩
  · obtain ⟨node, rfl | hbelow, hnode⟩ := ih inner (.child hm) hinner
    · exact ⟨node, Or.inr (.child hm), hnode⟩
    · exact ⟨node, Or.inr (.deeper hbelow hm), hnode⟩

theorem mem_urlsBelow {url : String} (doc : Node) :
    url ∈ urlsBelow doc ↔ ∃ node, (node = doc ∨ node.Below doc) ∧ url ∈ urlsOf node := by
  refine ⟨urlsOf_of_mem_urlsBelow doc, ?_⟩
  rintro ⟨node, rfl | hbelow, hnode⟩
  · exact mem_urlsBelow_content.2 (Or.inl hnode)
  · exact mem_urlsBelow_of_below hbelow (mem_urlsBelow_content.2 (Or.inl hnode))

theorem mem_linkedPages {id baseUrl : String} {doc : Node} :
    id ∈ linkedPages doc baseUrl ↔
      baseUrl ≠ "" ∧ ∃ url ∈ urlsBelow doc, linkedPage? baseUrl url = some id := by
  unfold linkedPages
  by_cases hb : baseUrl = ""
  · simp [hb]
  · simp only [if_neg hb]
    rw [Dictionary.mem_keys_ofPairs, List.map_map]
    simp [hb]

theorem linkedPage?_eq_some {id baseUrl url : String} :
    linkedPage? baseUrl url = some id ↔ Text.contains url baseUrl = true ∧ PageId.ofString url = some id := by
  unfold linkedPage?
  split <;> simp_all

/-! ## Links that are shown -/

/-- A URL is shown where a text has a link mark with it, or a card has it. -/
def IsShown (doc : Node) (url : String) : Prop :=
  ∃ node, (node = doc ∨ node.Below doc) ∧
    ((node.kind = .text ∧ ∃ mark ∈ node.marks, mark.kind = .link ∧ mark.href? = some url) ∨
      (node.kind = .inlineCard ∧ node.text? "url" = some url))

/-- A link is taken for one to the page with this id. -/
def LeadsTo (options : Options) (anchors : List String) (href id : String) : Prop :=
  ∃ path fragment, classify options anchors href = .page path fragment ∧
    PageId.ofString (Text.splitFirst '#' href).1 = some id

/-- A URL with nothing in its fragment, if it has one. -/
def bareFragment (href : String) : String :=
  match Text.cutAt '#' href.toList with
  | none => href
  | some (before, _) => .ofList (before ++ ['#'])

/-- There are blanks before the fragment of a URL that do not count without the fragment. -/
def blankBeforeFragment (href : String) : Bool :=
  (Text.cutAt '#' href.toList).any fun (before, _) => Url.endsBlank before

theorem IsShown.mem_urlsBelow {doc : Node} {url : String} (h : IsShown doc url) : url ∈ urlsBelow doc := by
  obtain ⟨node, hnode, ⟨-, mark, hmark, hkind, hurl⟩ | ⟨hkind, hurl⟩⟩ := h
  · have hown : url ∈ urlsOf node :=
      List.mem_append_left _ (List.mem_filterMap.2 ⟨mark, List.mem_filter.2 ⟨hmark, decide_eq_true hkind⟩, hurl⟩)
    exact (Link.mem_urlsBelow doc).2 ⟨node, hnode, hown⟩
  · have hown : url ∈ urlsOf node := List.mem_append_right _ (by simp [hkind, hurl])
    exact (Link.mem_urlsBelow doc).2 ⟨node, hnode, hown⟩

section
variable {options : Options} {anchors : List String} {href id : String}

theorem LeadsTo.isWikiUrl (h : LeadsTo options anchors href id) :
    isWikiUrl options (Text.splitFirst '#' href).1 = true := by
  obtain ⟨path, fragment, hpage, -⟩ := h
  unfold classify at hpage
  cases ha : anchor? anchors href with
  | some anchor => simp [ha] at hpage
  | none =>
    by_cases hw : Link.isWikiUrl options (Text.splitFirst '#' href).1 = true
    · exact hw
    · cases hi : issueKey? options href <;> simp [ha, hw, hi] at hpage

theorem LeadsTo.contains (h : LeadsTo options anchors href id) :
    options.baseUrl ≠ "" ∧ Text.contains href options.baseUrl = true := by
  obtain ⟨hb, hc⟩ := Bool.and_eq_true_iff.1 h.isWikiUrl
  exact ⟨of_decide_eq_true hb, Text.contains_of_splitFirst hc⟩

theorem ofString_bareFragment (href : String) : PageId.ofString (bareFragment href) = PageId.ofString href := by
  unfold bareFragment
  cases hc : Text.cutAt '#' href.toList with
  | none => rfl
  | some parts =>
    obtain ⟨before, after⟩ := parts
    obtain ⟨hs, hb⟩ := Text.of_cutAt hc
    rw [← PageId.ofString_fragment hb after, ← hs, String.ofList_toList]

theorem LeadsTo.ofString (h : LeadsTo options anchors href id) (hb : blankBeforeFragment href = false) :
    PageId.ofString href = some id := by
  obtain ⟨-, -, -, hid⟩ := h
  unfold Text.splitFirst at hid
  unfold blankBeforeFragment at hb
  cases hc : Text.cutAt '#' href.toList with
  | none => rwa [hc] at hid
  | some parts =>
    obtain ⟨before, after⟩ := parts
    obtain ⟨hs, hf⟩ := Text.of_cutAt hc
    rw [hc] at hid hb
    rw [← String.ofList_toList (s := href), hs]
    exact PageId.ofString_before_fragment hf hb hid after

def linkText (href : String) : Node :=
  { type := "text", marks := [{ type := "link", attrs := [("href", .string href)] }], text := some href }

theorem linkText_isShown (href : String) : IsShown (linkText href) href :=
  ⟨_, Or.inl rfl, Or.inl ⟨rfl, _, List.mem_singleton_self _, rfl, rfl⟩⟩

theorem urlsBelow_linkText (href : String) : urlsBelow (linkText href) = [href] := rfl

/-- **Linked pages.** Of a link that leads to a page, every document that shows it is said to point to that page
exactly if the link's URL still names the page with an empty fragment, and so if no blanks stand before the
fragment. -/
theorem linkedPages_of_leadsTo (h : LeadsTo options anchors href id) :
    ((∀ doc, IsShown doc href → id ∈ linkedPages doc options.baseUrl) ↔
        PageId.ofString (bareFragment href) = some id) ∧
      (blankBeforeFragment href = false → ∀ doc, IsShown doc href → id ∈ linkedPages doc options.baseUrl) := by
  obtain ⟨hbase, hcontains⟩ := h.contains
  have hfound (hid : PageId.ofString href = some id) (doc : Node) (hshown : IsShown doc href) :
      id ∈ linkedPages doc options.baseUrl :=
    mem_linkedPages.2 ⟨hbase, href, hshown.mem_urlsBelow, linkedPage?_eq_some.2 ⟨hcontains, hid⟩⟩
  rw [ofString_bareFragment]
  refine ⟨⟨fun hall => ?_, hfound⟩, fun hb => hfound (h.ofString hb)⟩
  -- The link alone is a document that shows no other URL.
  obtain ⟨-, url, hurl, hpage⟩ := mem_linkedPages.1 (hall (linkText href) (linkText_isShown href))
  rw [urlsBelow_linkText, List.mem_singleton] at hurl
  rw [← hurl]
  exact (linkedPage?_eq_some.1 hpage).2

end

/-- One page that is written, in a wiki of its own. -/
def onePage : Options :=
  { pages := [("12", { path := some "a.adoc" })], currentFile := "b.adoc", baseUrl := "https://wiki.example.com" }

theorem leadsTo_section : LeadsTo onePage [] "https://wiki.example.com/pages/12#Setup" "12" :=
  ⟨"a.adoc", some "Setup", by decide +kernel, by decide +kernel⟩

theorem linkedPages_of_leadsTo_section :
    LeadsTo onePage [] "https://wiki.example.com/pages/12#Setup" "12" ∧
      "12" ∈ linkedPages (linkText "https://wiki.example.com/pages/12#Setup") onePage.baseUrl :=
  ⟨leadsTo_section, (linkedPages_of_leadsTo leadsTo_section).2 (by decide +kernel) _ (linkText_isShown _)⟩

/-- A blank before the fragment counts only where the URL is looked up with the fragment. -/
theorem not_linkedPages_of_leadsTo :
    ¬ ∀ (doc : Node) (options : Options) (anchors : List String) (href id : String), options.baseUrl ≠ "" →
      IsShown doc href → LeadsTo options anchors href id → id ∈ linkedPages doc options.baseUrl := by
  intro h
  have hleads : LeadsTo onePage [] "https://wiki.example.com/pages/12 #Setup" "12" :=
    ⟨"a.adoc", some "Setup", by decide +kernel, by decide +kernel⟩
  have hnone : linkedPages (linkText "https://wiki.example.com/pages/12 #Setup") onePage.baseUrl = [] := by
    decide +kernel
  have hmem := h _ onePage [] _ "12" (by decide) (linkText_isShown _) hleads
  rw [hnone] at hmem
  cases hmem

end Link

end WikiPress
