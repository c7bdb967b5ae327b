import WikiPress.Proofs.LinkedPages
import WikiPress.Proofs.Resolution
import WikiPress.Proofs.Walk

/-!
# Labels of cards

A card points to a page of the wiki only with a URL of the wiki, but its label is looked up with any URL. So label and
target agree for a page of the wiki, and elsewhere unless the URL names a page of the mapping by chance.
-/

namespace WikiPress.Render

open Link (LeadsTo Resolves)

def labelElsewhere (title? : String → Option String) (url : String) : String :=
  (title? url).getD url

/-- Of the pages of the wiki, the one whose id is in a URL, whether or not the URL is one of the wiki. -/
def NamesMapped (options : Options) (url : String) (page : Page) : Prop :=
  ∃ id, PageId.ofString url = some id ∧ options.pages.lookup id = some page

section
variable {options : Options} {anchors : List String} {url id : String} (title? : String → Option String)

theorem mappedTitle?_of_namesMapped {page : Page} (h : NamesMapped options url page) :
    mappedTitle? options url = if page.title = "" then none else some page.title := by
  obtain ⟨id, hid, hpage⟩ := h
  simp [mappedTitle?, hid, hpage]

theorem mappedTitle?_eq_none (h : ∀ page, ¬NamesMapped options url page) : mappedTitle? options url = none := by
  cases hid : PageId.ofString url with
  | none => simp [mappedTitle?, hid]
  | some id =>
    cases hpage : options.pages.lookup id with
    | none => simp [mappedTitle?, hid, hpage]
    | some page => exact absurd ⟨id, hid, hpage⟩ (h page)

theorem cardLabel_of_namesMapped {page : Page} (h : NamesMapped options url page) :
    cardLabel options title? url = if page.title = "" then labelElsewhere title? url else page.title := by
  rw [cardLabel, mappedTitle?_of_namesMapped h]
  by_cases ht : page.title = ""
  · rw [if_pos ht, if_pos ht]
    rfl
  · rw [if_neg ht, if_neg ht]
    rfl

theorem cardLabel_eq_elsewhere_iff : cardLabel options title? url = labelElsewhere title? url ↔
    ∀ page, NamesMapped options url page → page.title = "" ∨ page.title = labelElsewhere title? url := by
  by_cases h : ∃ page, NamesMapped options url page
  · obtain ⟨page, hpage⟩ := h
    have hunique : ∀ other, NamesMapped options url other → other = page := by
      obtain ⟨id, hid, hfound⟩ := hpage
      intro other ⟨id', hid', hfound'⟩
      rw [hid] at hid'
      cases hid'
      exact Option.some.inj (hfound'.symm.trans hfound)
    rw [cardLabel_of_namesMapped title? hpage]
    constructor
    · intro hlabel other hother
      rw [hunique other hother]
      by_cases ht : page.title = ""
      · exact .inl ht
      · exact .inr (by rwa [if_neg ht] at hlabel)
    · intro hall
      by_cases ht : page.title = ""
      · rw [if_pos ht]
      · rw [if_neg ht]
        exact (hall page hpage).resolve_left ht
  · have hnone := not_exists.1 h
    rw [cardLabel, mappedTitle?_eq_none hnone]
    exact iff_of_true rfl fun page hpage => absurd hpage (hnone page)

theorem of_classify_page {path : String} {fragment : Option String}
    (h : Link.classify options anchors url = .page path fragment) :
    Link.IsInWiki options (Text.splitFirst '#' url).1 ∧ Link.NamesPage options (Text.splitFirst '#' url).1 path := by
  obtain ⟨target, hresolves⟩ := Link.exists_resolves options anchors url
  have htarget := hresolves.classify_eq.symm.trans h
  subst htarget
  cases hresolves with
  | page _ hsplit hwiki hpage =>
    rw [Link.splitFirst_eq_iff.2 hsplit]
    exact ⟨hwiki, hpage⟩

theorem classify_ne_page (h : Text.contains url options.baseUrl = false) (path : String) (fragment : Option String) :
    Link.classify options anchors url ≠ .page path fragment := by
  intro hpage
  have hwiki := Text.contains_iff.2 (of_classify_page hpage).1.2
  rw [Text.contains_of_splitFirst hwiki] at h
  cases h

theorem namesMapped_of_leadsTo (h : LeadsTo options anchors url id) (hb : Link.blankBeforeFragment url = false) :
    ∃ page, options.pages.lookup id = some page ∧ NamesMapped options url page := by
  have hurl := h.ofString hb
  obtain ⟨path, fragment, hclass, hid⟩ := h
  obtain ⟨id', page, target, hid', hpage, -, -⟩ := (of_classify_page hclass).2
  rw [hid] at hid'
  cases hid'
  exact ⟨page, hpage, id, hurl, hpage⟩

theorem run_renderCard {node : Node} (hurl : node.someText? "url" = some url) (inCell : Bool) (memory : Memory) :
    ((renderCard options title? inCell node).run memory).1 =
      escapeInCell inCell (Link.markup (Link.classify options memory.anchors url) (cardLabel options title? url)) := by
  rw [renderCard, hurl]
  rfl

end

section
variable {node : Node} {url : String} (hkind : node.kind = .inlineCard) (hurl : node.someText? "url" = some url)
include hkind hurl

theorem render_card {place : Place} {context : Context} (hskip : context.memory.skipped ≠ some place)
    (indent : String) :
    ((Walk.render place indent node).run context).1 =
      [escapeInCell context.scope.inCell
        (Link.markup (Link.classify context.setting.options context.memory.anchors url)
          (cardLabel context.setting.options context.setting.title? url))] := by
  have hrule : Rule.ofNode context.setting context.scope indent node = .leaf .card := by rw [Rule.ofNode, hkind]
  rw [Walk.run_render hskip indent hrule, ← run_renderCard context.setting.title? hurl]
  rfl

/-- **Labels of cards.** A card is shown as a link with its label. Outside the wiki its target is no page, and its label
is the title found elsewhere or else the URL exactly if it names no page of the mapping with another title. Where it
points to a page of the mapping, with no blank before a fragment, the title of that page is its label. -/
theorem card_label {place : Place} {context : Context} (hskip : context.memory.skipped ≠ some place)
    (indent : String) :
    let options := context.setting.options
    let title? := context.setting.title?
    let target := Link.classify options context.memory.anchors url
    let label := cardLabel options title? url
    ((Walk.render place indent node).run context).1 =
        [escapeInCell context.scope.inCell (Link.markup target label)] ∧
      (Text.contains url options.baseUrl = false →
        (∀ path fragment, target ≠ .page path fragment) ∧
        (label = labelElsewhere title? url ↔
          ∀ page, NamesMapped options url page → page.title = "" ∨ page.title = labelElsewhere title? url)) ∧
      ∀ id, LeadsTo options context.memory.anchors url id → Link.blankBeforeFragment url = false →
        ∃ page, options.pages.lookup id = some page ∧
          label = if page.title = "" then labelElsewhere title? url else page.title := by
  intro options title? target label
  refine ⟨render_card hkind hurl hskip indent, fun hout => ?_, fun id hleads hb => ?_⟩
  · exact ⟨classify_ne_page hout, cardLabel_eq_elsewhere_iff title?⟩
  · obtain ⟨page, hpage, hnames⟩ := namesMapped_of_leadsTo hleads hb
    exact ⟨page, hpage, cardLabel_of_namesMapped title? hnames⟩

end

def cardTo (url : String) : Node :=
  { type := "inlineCard", attrs := [("url", .string url)] }

/-- One page of the wiki with a title, in a setting where the title of any URL is found. -/
def guide : Setting where
  options :=
    { pages := [("42", { title := "Guide", path := some "guide.adoc" })], baseUrl := "https://wiki.example.com" }
  title? _ := some "Elsewhere"

theorem card_label_guide :
    ((Walk.render [] "" (cardTo "https://wiki.example.com/pages/42")).run { setting := guide }).1 =
        ["xref:guide.adoc[Guide]"] ∧
      cardLabel guide.options guide.title? "https://other.example.org" = "Elsewhere" := by
  let context : Context := { setting := guide }
  have hskip : context.memory.skipped ≠ some [] := nofun
  have hwiki := card_label (rfl : (cardTo "https://wiki.example.com/pages/42").kind = .inlineCard) rfl hskip ""
  have hother := card_label (rfl : (cardTo "https://other.example.org").kind = .inlineCard) rfl hskip ""
  have hnone : PageId.ofString "https://other.example.org" = none := by decide +kernel
  refine ⟨hwiki.1.trans (by decide +kernel), (hother.2.1 (by decide +kernel)).2.2 ?_⟩
  intro page ⟨id, hid, _⟩
  rw [hnone] at hid
  cases hid

/-- The id of a page of the wiki is in the URL of another site, and the label is the title of that page. -/
theorem not_cardLabel_elsewhere :
    ¬ ∀ (node : Node) (url : String) (place : Place) (indent : String) (context : Context),
      node.kind = .inlineCard → node.someText? "url" = some url → context.setting.options.baseUrl ≠ "" →
      Text.contains url context.setting.options.baseUrl = false → context.memory.skipped ≠ some place →
      ((Walk.render place indent node).run context).1 =
        [escapeInCell context.scope.inCell
          (Link.markup (Link.classify context.setting.options context.memory.anchors url)
            (labelElsewhere context.setting.title? url))] := by
  intro h
  let context : Context := { setting := { guide with title? := fun _ => none } }
  have hlabel := h (cardTo "https://other.example.org/pages/42") _ [] "" context rfl rfl (by decide) (by decide +kernel)
    nofun
  exact absurd hlabel (by decide +kernel)

end WikiPress.Render
