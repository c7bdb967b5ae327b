import Mathlib.Data.List.Sort
import WikiPress.Proofs.AsRead
import WikiPress.Proofs.LinkedPages

/-!
# Pages that a document points to

The pages are those of the URLs that stand anywhere in the document, whatever is rendered of it. They are listed in
order, so that the order of the nodes does not matter.
-/

namespace WikiPress

namespace Node

/-- The same nodes, but with the children of some in another order. -/
inductive Reordered : Node → Node → Prop
  | children {node : Node} {content : List Node} :
      node.content.Perm content → Reordered node { node with content := content }
  | inside {node inner other : Node} {before after : List Node} : node.content = before ++ inner :: after →
      Reordered inner other → Reordered node { node with content := before ++ other :: after }
  | trans {node other last : Node} : Reordered node other → Reordered other last → Reordered node last

end Node

namespace Link

/-- A URL stands in a node itself: in a link mark, or as what a card shows. -/
def PointsTo (node : Node) (url : String) : Prop :=
  (∃ mark ∈ node.marks, mark.kind = .link ∧ mark.attrs.lookup "href" = some (.string url)) ∨
    (node.kind = .inlineCard ∧ node.attrs.lookup "url" = some (.string url))

theorem mem_urlsOf {node : Node} {url : String} : url ∈ urlsOf node ↔ PointsTo node url := by
  have hlinks : url ∈ (node.marks.filter (·.kind = .link)).filterMap Mark.href? ↔
      ∃ mark ∈ node.marks, mark.kind = .link ∧ mark.attrs.lookup "href" = some (.string url) := by
    simp only [List.mem_filterMap, List.mem_filter, decide_eq_true_eq, Mark.href?, Mark.text?,
      Json.Fields.text?_eq_some, and_assoc]
  have hcard : url ∈ (if node.kind = .inlineCard then (node.text? "url").toList else []) ↔
      node.kind = .inlineCard ∧ node.attrs.lookup "url" = some (.string url) := by
    rw [← Json.Fields.text?_eq_some]
    split
    · rename_i hkind
      simp [hkind, Node.text?]
    · rename_i hkind
      simp [hkind]
  rw [urlsOf, List.mem_append, hlinks, hcard, PointsTo]

theorem linkedPages_isSorted (doc : Node) (baseUrl : String) : (linkedPages doc baseUrl).Pairwise (· < ·) := by
  unfold linkedPages
  split
  · exact .nil
  · exact Dictionary.ofPairs_isSorted _

theorem mem_urlsBelow_reordered {doc other : Node} (h : doc.Reordered other) (url : String) :
    url ∈ urlsBelow other ↔ url ∈ urlsBelow doc := by
  induction h with
  | children hperm =>
    rw [mem_urlsBelow_content, mem_urlsBelow_content]
    exact or_congr Iff.rfl (exists_congr fun inner => and_congr hperm.mem_iff.symm Iff.rfl)
  | inside hcontent _ ih =>
    rw [mem_urlsBelow_content, mem_urlsBelow_content, hcontent]
    simp only [List.mem_append, List.mem_cons, or_and_right, exists_or, exists_eq_left, ih]
    rfl
  | trans _ _ ih ih' => exact ih'.trans ih

/-- **The pages that a document points to** are those that the URLs of the wiki name in any of its nodes. There are none
without a wiki, and no order of the children makes a difference. -/
theorem linkedPages_pointsTo (doc : Node) (baseUrl : String) :
    linkedPages doc "" = [] ∧
      (baseUrl ≠ "" → ∀ id, id ∈ linkedPages doc baseUrl ↔ ∃ node url, (node = doc ∨ node.Below doc) ∧
        PointsTo node url ∧ baseUrl.toList <:+: url.toList ∧ PageId.ofString url = some id) ∧
      ∀ other, doc.Reordered other → linkedPages other baseUrl = linkedPages doc baseUrl := by
  refine ⟨rfl, fun hbase id => ?_, fun other h => ?_⟩
  · simp only [mem_linkedPages, linkedPage?_eq_some, mem_urlsBelow, mem_urlsOf, Text.contains_iff]
    constructor
    · rintro ⟨-, url, ⟨node, hnode, hurl⟩, hbase, hid⟩
      exact ⟨node, url, hnode, hurl, hbase, hid⟩
    · rintro ⟨node, url, hnode, hurl, hin, hid⟩
      exact ⟨hbase, url, ⟨node, hnode, hurl⟩, hin, hid⟩
  · refine (linkedPages_isSorted other baseUrl).eq_of_mem_iff (linkedPages_isSorted doc baseUrl) fun id => ?_
    simp only [mem_linkedPages, mem_urlsBelow_reordered h]

def smartCard (url : String) : Node :=
  { type := "inlineCard", attrs := [("url", .string url)] }

/-- A card in a rule, of which nothing is rendered, before a linked text. -/
def cardInRule : Node :=
  { type := "doc", content := [{ type := "rule", content := [smartCard "https://wiki.example.com/x?pageId=34"] },
    linkText "https://wiki.example.com/pages/12"] }

theorem linkedPages_pointsTo_cardInRule :
    "34" ∈ linkedPages cardInRule "https://wiki.example.com" ∧
      linkedPages { cardInRule with content := cardInRule.content.reverse } "https://wiki.example.com" =
        linkedPages cardInRule "https://wiki.example.com" := by
  obtain ⟨-, hpages, hreordered⟩ := linkedPages_pointsTo cardInRule "https://wiki.example.com"
  refine ⟨(hpages (by decide) "34").2 ?_, hreordered _ (.children (List.reverse_perm _).symm)⟩
  have hbelow : (smartCard "https://wiki.example.com/x?pageId=34").Below cardInRule :=
    .grandchild (List.mem_singleton_self _) List.mem_cons_self
  exact ⟨_, _, .inr hbelow, .inr ⟨rfl, rfl⟩, Text.contains_iff.1 (by decide +kernel), by decide +kernel⟩

end Link

end WikiPress
