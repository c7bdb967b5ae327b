import Mathlib.Data.Nat.Find
import Mathlib.Order.Bounds.Basic
import WikiPress.PageId

/-!
# The page that a URL names

Three places in a URL can name a page: the query, the segment after `pages`, and the one after `pages` and
`viewpage.action`. They are looked at in this order, and in each the leftmost id counts.
-/

namespace WikiPress.PageId

/-! ## The leftmost of many -/

/-- A value is found at the least index at which any is. -/
def IsFirst {β : Type} (found : Nat → β → Prop) (b : β) : Prop :=
  ∃ i, IsLeast {i | ∃ b, found i b} i ∧ found i b

/-- What is found at the start of the longest suffix at which anything is. -/
def firstIn {α β : Type} (find : List α → Option β) : List α → Option β
  | [] => none
  | a :: as => (find (a :: as)).or (firstIn find as)

theorem exists_isFirst {β : Type} {found : Nat → β → Prop} (h : ∃ i b, found i b) : ∃ b, IsFirst found b := by
  classical
  obtain ⟨b, hb⟩ := Nat.find_spec h
  exact ⟨b, Nat.find h, ⟨⟨b, hb⟩, fun j hj => Nat.find_min' h hj⟩, hb⟩

section
variable {α β : Type} {find : List α → Option β} {as : List α} {b : β}

theorem isFirst_cons {a : α} (h : find (a :: as) = none) :
    IsFirst (fun i b => find ((a :: as).drop i) = some b) b ↔ IsFirst (fun i b => find (as.drop i) = some b) b := by
  constructor
  · rintro ⟨i, hleast, hfound⟩
    cases i with
    | zero =>
      rw [List.drop_zero, h] at hfound
      cases hfound
    | succ i =>
      refine ⟨i, ⟨⟨b, hfound⟩, fun j hj => ?_⟩, hfound⟩
      obtain ⟨c, hc⟩ := hj
      exact Nat.le_of_succ_le_succ (hleast.2 (show j + 1 ∈ _ from ⟨c, hc⟩))
  · rintro ⟨i, hleast, hfound⟩
    refine ⟨i + 1, ⟨⟨b, hfound⟩, fun j hj => ?_⟩, hfound⟩
    obtain ⟨c, hc⟩ := hj
    cases j with
    | zero =>
      rw [List.drop_zero, h] at hc
      cases hc
    | succ j => exact Nat.succ_le_succ (hleast.2 ⟨c, hc⟩)

theorem firstIn_eq_some_iff_drop (hnil : find [] = none) :
    firstIn find as = some b ↔ IsFirst (fun i b => find (as.drop i) = some b) b := by
  induction as with
  | nil =>
    refine ⟨nofun, ?_⟩
    rintro ⟨i, -, hfound⟩
    rw [List.drop_nil, hnil] at hfound
    cases hfound
  | cons a as ih =>
    rw [firstIn]
    cases h : find (a :: as) with
    | none => rw [Option.none_or, ih, isFirst_cons h]
    | some c =>
      rw [Option.some_or]
      constructor
      · intro hc
        rw [hc] at h
        exact ⟨0, ⟨⟨b, h⟩, fun j _ => Nat.zero_le j⟩, h⟩
      · rintro ⟨i, hleast, hfound⟩
        obtain rfl := Nat.le_zero.1 (hleast.2 ⟨c, h⟩)
        rw [← h, ← hfound, List.drop_zero]

/-- A search that looks at one suffix after the other finds what is leftmost. -/
theorem firstIn_eq_some_iff (hnil : find [] = none) {found : Nat → β → Prop}
    (hfound : ∀ i b, find (as.drop i) = some b ↔ found i b) : firstIn find as = some b ↔ IsFirst found b := by
  have heq : (fun i b => find (as.drop i) = some b) = found := funext fun i => funext fun b => propext (hfound i b)
  rw [firstIn_eq_some_iff_drop hnil, heq]

end

/-! ## The three places -/

section
variable (pairs : List (List Char × List Char)) (segments : List (List Char))

/-- The first pair of a query under `pageId` has this value. -/
def QuerySays (id : List Char) : Prop :=
  ∃ before after, pairs = before ++ ("pageId".toList, id) :: after ∧ ∀ pair ∈ before, pair.1 ≠ "pageId".toList

/-- The segment at an index is `pages`, and digits follow. -/
def IdAfterPages (i : Nat) (id : List Char) : Prop :=
  segments[i]? = some "pages".toList ∧ segments[i + 1]? = some id ∧ Text.isNumeric id = true

/-- The segments from an index on are `pages` and `viewpage.action`, and digits follow. -/
def IdAfterViewPage (i : Nat) (id : List Char) : Prop :=
  segments[i]? = some "pages".toList ∧ segments[i + 1]? = some "viewpage.action".toList ∧
    segments[i + 2]? = some id ∧ Text.isNumeric id = true

/-- The page that is named by a query and segments, if there is one. An empty id in the query is none. -/
inductive Names : Option (List Char) → Prop
  | query {id : List Char} : QuerySays pairs id → id ≠ [] → Names (some id)
  | pages {id : List Char} : (∀ id, QuerySays pairs id → id = []) → IsFirst (IdAfterPages segments) id →
      Names (some id)
  | viewPage {id : List Char} : (∀ id, QuerySays pairs id → id = []) → (∀ i id, ¬IdAfterPages segments i id) →
      IsFirst (IdAfterViewPage segments) id → Names (some id)
  | nothing : (∀ id, QuerySays pairs id → id = []) → (∀ i id, ¬IdAfterPages segments i id) →
      (∀ i id, ¬IdAfterViewPage segments i id) → Names none

end

/-! ## Looking at them -/

def atPages : List (List Char) → Option (List Char)
  | a :: b :: _ => if a = "pages".toList ∧ Text.isNumeric b then some b else none
  | _ => none

def atViewPage : List (List Char) → Option (List Char)
  | a :: b :: c :: _ =>
    if a = "pages".toList ∧ b = "viewpage.action".toList ∧ Text.isNumeric c then some c else none
  | _ => none

section
variable {pairs : List (List Char × List Char)} {segments : List (List Char)} {id : List Char}

theorem afterPages_eq (segments : List (List Char)) : afterPages segments = firstIn atPages segments := by
  induction segments with
  | nil => rfl
  | cons a rest ih =>
    cases rest with
    | nil => rfl
    | cons b rest =>
      rw [afterPages, firstIn, ← ih, atPages]
      split <;> rfl

theorem afterViewPage_eq (segments : List (List Char)) : afterViewPage segments = firstIn atViewPage segments := by
  induction segments with
  | nil => rfl
  | cons a rest ih =>
    match rest with
    | [] | [b] => rfl
    | b :: c :: rest =>
      rw [afterViewPage, firstIn, ← ih, atViewPage]
      split <;> rfl

theorem atPages_drop (i : Nat) : atPages (segments.drop i) = some id ↔ IdAfterPages segments i id := by
  have hfirst : (segments.drop i)[0]? = segments[i]? := List.getElem?_drop
  have hsecond : (segments.drop i)[1]? = segments[i + 1]? := List.getElem?_drop
  rw [IdAfterPages, ← hfirst, ← hsecond]
  match segments.drop i with
  | [] => exact ⟨nofun, nofun⟩
  | [a] => exact ⟨nofun, nofun⟩
  | a :: b :: _ =>
    rw [atPages, Option.ite_none_right_eq_some]
    constructor
    · rintro ⟨⟨ha, hb⟩, ⟨⟩⟩
      exact ⟨congrArg some ha, rfl, hb⟩
    · rintro ⟨ha, ⟨⟩, hb⟩
      exact ⟨⟨Option.some.inj ha, hb⟩, rfl⟩

theorem atViewPage_drop (i : Nat) : atViewPage (segments.drop i) = some id ↔ IdAfterViewPage segments i id := by
  have hfirst : (segments.drop i)[0]? = segments[i]? := List.getElem?_drop
  have hsecond : (segments.drop i)[1]? = segments[i + 1]? := List.getElem?_drop
  have hthird : (segments.drop i)[2]? = segments[i + 2]? := List.getElem?_drop
  rw [IdAfterViewPage, ← hfirst, ← hsecond, ← hthird]
  match segments.drop i with
  | [] => exact ⟨nofun, nofun⟩
  | [a] => exact ⟨nofun, nofun⟩
  | [a, b] => exact ⟨nofun, nofun⟩
  | a :: b :: c :: _ =>
    rw [atViewPage, Option.ite_none_right_eq_some]
    constructor
    · rintro ⟨⟨ha, hb, hc⟩, ⟨⟩⟩
      exact ⟨congrArg some ha, congrArg some hb, rfl, hc⟩
    · rintro ⟨ha, hb, ⟨⟩, hc⟩
      exact ⟨⟨Option.some.inj ha, Option.some.inj hb, hc⟩, rfl⟩

theorem find?_key_eq_some_iff (key : List Char) : pairs.find? (fun pair => pair.1 = key) = some (key, id) ↔
    ∃ before after, pairs = before ++ (key, id) :: after ∧ ∀ pair ∈ before, pair.1 ≠ key := by
  rw [List.find?_eq_some_iff_append]
  simp

theorem ofQuery_eq_some_iff : ofQuery pairs = some id ↔ QuerySays pairs id ∧ id ≠ [] := by
  rw [QuerySays, ← find?_key_eq_some_iff, ofQuery]
  generalize hfind : pairs.find? _ = found
  cases found with
  | none => simp
  | some pair =>
    obtain ⟨key, value⟩ := pair
    have hkey := List.find?_some hfind
    obtain rfl : key = "pageId".toList := of_decide_eq_true hkey
    cases value with
    | nil =>
      refine ⟨nofun, ?_⟩
      rintro ⟨h, hne⟩
      cases h
      exact absurd rfl hne
    | cons c cs =>
      constructor
      · rintro ⟨⟩
        exact ⟨rfl, List.cons_ne_nil c cs⟩
      · rintro ⟨h, -⟩
        cases h
        rfl

theorem afterPages_eq_some_iff : afterPages segments = some id ↔ IsFirst (IdAfterPages segments) id := by
  rw [afterPages_eq, firstIn_eq_some_iff rfl fun i _ => atPages_drop i]

theorem afterViewPage_eq_some_iff : afterViewPage segments = some id ↔ IsFirst (IdAfterViewPage segments) id := by
  rw [afterViewPage_eq, firstIn_eq_some_iff rfl fun i _ => atViewPage_drop i]

theorem exists_names (pairs : List (List Char × List Char)) (segments : List (List Char)) :
    ∃ answer, Names pairs segments answer := by
  by_cases hquery : ∃ id, QuerySays pairs id ∧ id ≠ []
  · obtain ⟨id, hpair, hne⟩ := hquery
    exact ⟨_, .query hpair hne⟩
  have hquery : ∀ id, QuerySays pairs id → id = [] := fun id hpair =>
    Classical.not_not.1 fun hne => hquery ⟨id, hpair, hne⟩
  by_cases hpages : ∃ i id, IdAfterPages segments i id
  · obtain ⟨id, hfirst⟩ := exists_isFirst hpages
    exact ⟨_, .pages hquery hfirst⟩
  have hpages : ∀ i id, ¬IdAfterPages segments i id := fun i id h => hpages ⟨i, id, h⟩
  by_cases hview : ∃ i id, IdAfterViewPage segments i id
  · obtain ⟨id, hfirst⟩ := exists_isFirst hview
    exact ⟨_, .viewPage hquery hpages hfirst⟩
  · exact ⟨_, .nothing hquery hpages fun i id h => hview ⟨i, id, h⟩⟩

theorem Names.eq {answer : Option (List Char)} (h : Names pairs segments answer) :
    (ofQuery pairs).or (ofSegments segments) = answer := by
  have noQuery (hquery : ∀ id, QuerySays pairs id → id = []) : ofQuery pairs = none := by
    refine Option.eq_none_iff_forall_ne_some.2 fun id hid => ?_
    obtain ⟨hpair, hne⟩ := ofQuery_eq_some_iff.1 hid
    exact hne (hquery id hpair)
  have noPages (hpages : ∀ i id, ¬IdAfterPages segments i id) : afterPages segments = none := by
    refine Option.eq_none_iff_forall_ne_some.2 fun id hid => ?_
    obtain ⟨i, -, hfound⟩ := afterPages_eq_some_iff.1 hid
    exact hpages i id hfound
  cases h with
  | query hpair hne => rw [ofQuery_eq_some_iff.2 ⟨hpair, hne⟩, Option.some_or]
  | pages hquery hfirst =>
    rw [noQuery hquery, Option.none_or, ofSegments, afterPages_eq_some_iff.2 hfirst, Option.some_or]
  | viewPage hquery hpages hfirst =>
    rw [noQuery hquery, Option.none_or, ofSegments, noPages hpages, Option.none_or, afterViewPage_eq_some_iff.2 hfirst]
  | nothing hquery hpages hview =>
    rw [noQuery hquery, Option.none_or, ofSegments, noPages hpages, Option.none_or]
    refine Option.eq_none_iff_forall_ne_some.2 fun id hid => ?_
    obtain ⟨i, -, hfound⟩ := afterViewPage_eq_some_iff.1 hid
    exact hview i id hfound

/-- **The page that a URL names** is the one in the first of the three places that names any. -/
theorem ofString_eq_iff_names {text : String} {url : Url} (h : Url.ofString text = some url)
    (answer : Option String) :
    ofString text = answer ↔ Names url.queryPairs (url.segments.getD []) (answer.map String.toList) := by
  have hurl : (ofString text).map String.toList = (ofQuery url.queryPairs).or (ofSegments (url.segments.getD [])) := by
    have hsegments : url.segments.bind ofSegments = ofSegments (url.segments.getD []) := by
      cases url.segments <;> rfl
    rw [ofString, h, Option.bind_some, ofUrl, hsegments, Option.map_map]
    exact (congrArg (Option.map · _) (funext fun _ => String.toList_ofList)).trans Option.map_id'
  have hnames (answer : Option (List Char)) : (ofString text).map String.toList = answer ↔
      Names url.queryPairs (url.segments.getD []) answer := by
    rw [hurl]
    refine ⟨fun heq => ?_, Names.eq⟩
    obtain ⟨other, hother⟩ := exists_names url.queryPairs (url.segments.getD [])
    rwa [← heq, hother.eq]
  rw [← hnames]
  exact (Option.map_injective fun _ _ => String.toList_inj.1).eq_iff.symm

/-- Neither an empty id in the query nor the first `pages` decides. -/
theorem ofString_eq_iff_names_later :
    let text := "https://wiki.example.com/pages/new/pages/12/pages/34?pageId=&pageId=56#top"
    let url : Url := ⟨some ["pages".toList, "new".toList, "pages".toList, "12".toList, "pages".toList, "34".toList],
      some "pageId=&pageId=56".toList⟩
    Url.ofString text = some url ∧ ofString text = some "12" ∧
      Names url.queryPairs (url.segments.getD []) (some "12".toList) := by
  intro text url
  have h : Url.ofString text = some url := by decide +kernel
  have htwelve : ofString text = some "12" := by decide +kernel
  exact ⟨h, htwelve, (ofString_eq_iff_names h (some "12")).1 htwelve⟩

end

end WikiPress.PageId
