import WikiPress.Link
import WikiPress.Proofs.Fragment

/-!
# Where links lead

Five rules say where a link leads, and the first that holds of it decides. They are stated by how the URL is put
together; an issue is named by the first key in it, with all digits that stand there.
-/

namespace WikiPress

namespace Link

/-! ## Keys of issues -/

/-- Upper-case letters, a hyphen and digits. -/
inductive IsKey : List Char → Prop
  | intro {letters digits : List Char} : letters ≠ [] → (∀ c ∈ letters, isUpper c = true) →
      digits ≠ [] → (∀ c ∈ digits, Text.isDigit c = true) → IsKey (letters ++ '-' :: digits)

/-- A key in a text, behind `/browse/`. -/
structure HasKey (text before key rest : List Char) : Prop where
  isKey : IsKey key
  text_eq : text = before ++ "/browse/".toList ++ key ++ rest

def StartsWithDigit (cs : List Char) : Prop :=
  ∃ c, cs.head? = some c ∧ Text.isDigit c = true

/-- The first key in a text. All digits that stand there are part of it. -/
def IsFirstKey (text key : List Char) : Prop :=
  ∃ before rest, HasKey text before key rest ∧ ¬ StartsWithDigit rest ∧
    ∀ before' key' rest', HasKey text before' key' rest' → before.length ≤ before'.length

theorem issueKeyAt_append {key : List Char} (h : IsKey key) (rest : List Char) :
    issueKeyAt (key ++ rest) = some (key ++ rest.takeWhile Text.isDigit) := by
  obtain @⟨letters, digits, hletters, hupper, hdigits, hdigit⟩ := h
  have hhyphen : isUpper '-' = false := by decide
  have hcs : letters ++ '-' :: digits ++ rest = letters ++ '-' :: (digits ++ rest) := by simp
  rw [hcs, issueKeyAt, List.takeWhile_append_of_pos hupper, List.dropWhile_append_of_pos hupper,
    List.takeWhile_cons_of_neg (by simp [hhyphen]), List.dropWhile_cons_of_neg (by simp [hhyphen])]
  simp [List.takeWhile_append_of_pos hdigit, hletters, hdigits]

theorem takeWhile_digits_eq_nil {cs : List Char} (h : ¬ StartsWithDigit cs) : cs.takeWhile Text.isDigit = [] := by
  cases cs with
  | nil => rfl
  | cons c cs => exact List.takeWhile_cons_of_neg fun hc => h ⟨c, rfl, hc⟩

theorem issueKeyAt_eq_some_iff {cs key : List Char} :
    issueKeyAt cs = some key ↔ ∃ rest, IsKey key ∧ cs = key ++ rest ∧ ¬ StartsWithDigit rest := by
  constructor
  · intro h
    simp only [issueKeyAt] at h
    split at h
    · rename_i rest hrest
      split at h
      · cases h
      · rename_i hne
        obtain ⟨hletters, hdigits⟩ := not_or.1 hne
        cases h
        refine ⟨rest.dropWhile Text.isDigit, ⟨hletters, List.all_eq_true.1 List.all_takeWhile,
          hdigits, List.all_eq_true.1 List.all_takeWhile⟩, ?_, ?_⟩
        · rw [List.append_assoc, List.cons_append, List.takeWhile_append_dropWhile, ← hrest,
            List.takeWhile_append_dropWhile]
        · rintro ⟨c, hc, hdigit⟩
          have hfalse := List.head?_dropWhile_not Text.isDigit rest
          rw [hc] at hfalse
          simp [hdigit] at hfalse
    · cases h
  · rintro ⟨rest, hkey, rfl, hrest⟩
    rw [issueKeyAt_append hkey, takeWhile_digits_eq_nil hrest, List.append_nil]

/-- The key behind `/browse/` in a text that begins with that. -/
def keyAtStart? (cs : List Char) : Option (List Char) :=
  (Text.afterStart? "/browse/".toList cs).bind issueKeyAt

theorem keyAtStart?_eq_some_iff {cs key : List Char} :
    keyAtStart? cs = some key ↔ ∃ rest, HasKey cs [] key rest ∧ ¬ StartsWithDigit rest := by
  simp only [keyAtStart?, Option.bind_eq_some_iff, Text.afterStart?_eq_some_iff, issueKeyAt_eq_some_iff]
  constructor
  · rintro ⟨_, rfl, rest, hkey, rfl, hrest⟩
    exact ⟨rest, ⟨hkey, (List.append_assoc ..).symm⟩, hrest⟩
  · rintro ⟨rest, ⟨hkey, rfl⟩, hrest⟩
    exact ⟨key ++ rest, List.append_assoc .., rest, hkey, rfl, hrest⟩

theorem keyAtStart?_of_hasKey {cs key rest : List Char} (h : HasKey cs [] key rest) :
    keyAtStart? cs = some (key ++ rest.takeWhile Text.isDigit) := by
  have hafter : Text.afterStart? "/browse/".toList cs = some (key ++ rest) := by
    rw [Text.afterStart?_eq_some_iff, h.text_eq]
    exact List.append_assoc ..
  rw [keyAtStart?, hafter, Option.bind_some, issueKeyAt_append h.isKey]

theorem hasKey_cons {c : Char} {cs before key rest : List Char} :
    HasKey (c :: cs) (c :: before) key rest ↔ HasKey cs before key rest :=
  ⟨fun h => ⟨h.isKey, List.tail_eq_of_cons_eq h.text_eq⟩, fun h => ⟨h.isKey, congrArg (c :: ·) h.text_eq⟩⟩

theorem HasKey.before_cons {c : Char} {cs before key rest : List Char} (hnone : keyAtStart? (c :: cs) = none)
    (h : HasKey (c :: cs) before key rest) : ∃ before', before = c :: before' ∧ HasKey cs before' key rest := by
  cases before with
  | nil =>
    rw [keyAtStart?_of_hasKey h] at hnone
    cases hnone
  | cons d before =>
    obtain ⟨rfl, -⟩ := List.cons.inj h.text_eq
    exact ⟨before, rfl, hasKey_cons.1 h⟩

theorem isFirstKey_nil (key : List Char) : ¬ IsFirstKey [] key := by
  rintro ⟨before, rest, h, -⟩
  have := h.text_eq
  simp at this

theorem isFirstKey_of_keyAtStart {c : Char} {cs key found : List Char} (h : keyAtStart? (c :: cs) = some found) :
    IsFirstKey (c :: cs) key ↔ found = key := by
  constructor
  · rintro ⟨before, rest, hkey, hrest, hmin⟩
    obtain ⟨rest', hfound, -⟩ := keyAtStart?_eq_some_iff.1 h
    have hbefore : before = [] := List.eq_nil_of_length_eq_zero (Nat.le_zero.1 (hmin [] found rest' hfound))
    subst hbefore
    exact Option.some.inj (h.symm.trans (keyAtStart?_eq_some_iff.2 ⟨rest, hkey, hrest⟩))
  · rintro rfl
    obtain ⟨rest, hkey, hrest⟩ := keyAtStart?_eq_some_iff.1 h
    exact ⟨[], rest, hkey, hrest, fun _ _ _ _ => Nat.zero_le _⟩

theorem isFirstKey_cons {c : Char} {cs key : List Char} (h : keyAtStart? (c :: cs) = none) :
    IsFirstKey (c :: cs) key ↔ IsFirstKey cs key := by
  constructor
  · rintro ⟨before, rest, hkey, hrest, hmin⟩
    obtain ⟨before, rfl, hkey'⟩ := hkey.before_cons h
    exact ⟨before, rest, hkey', hrest, fun before' key' rest' h' =>
      Nat.le_of_succ_le_succ (hmin (c :: before') key' rest' (hasKey_cons.2 h'))⟩
  · rintro ⟨before, rest, hkey, hrest, hmin⟩
    refine ⟨c :: before, rest, hasKey_cons.2 hkey, hrest, fun _ key' rest' h' => ?_⟩
    obtain ⟨before', rfl, hcs⟩ := h'.before_cons h
    exact Nat.succ_le_succ (hmin before' key' rest' hcs)

theorem issueKeyIn_cons (c : Char) (cs : List Char) :
    issueKeyIn (c :: cs) = (keyAtStart? (c :: cs)).or (issueKeyIn cs) := by
  rw [issueKeyIn, ← keyAtStart?]
  cases keyAtStart? (c :: cs) <;> rfl

theorem issueKeyIn_eq_some_iff {text key : List Char} : issueKeyIn text = some key ↔ IsFirstKey text key := by
  induction text with
  | nil => exact ⟨nofun, fun h => absurd h (isFirstKey_nil key)⟩
  | cons c cs ih =>
    rw [issueKeyIn_cons]
    cases h : keyAtStart? (c :: cs) with
    | some found => rw [isFirstKey_of_keyAtStart h, Option.some_or, Option.some.injEq]
    | none => rw [isFirstKey_cons h, ← ih, Option.none_or]

/-! ## The parts of a link -/

section
variable (options : Options) (anchors : List String) (href url : String)

/-- A link to an anchor that was met. -/
def IsAnchor (id : String) : Prop :=
  href = "#" ++ id ∧ id ∈ anchors

/-- What a link is before its first `#`, and what follows that. -/
inductive SplitsInto : String → Option String → Prop
  | whole : '#' ∉ href.toList → SplitsInto href none
  | atMark {url fragment : String} : '#' ∉ url.toList → href = url ++ "#" ++ fragment →
      SplitsInto url (some fragment)

def IsInWiki : Prop :=
  options.baseUrl ≠ "" ∧ options.baseUrl.toList <:+: url.toList

/-- The path from the current file to the page that a URL names. -/
def NamesPage (path : String) : Prop :=
  ∃ id page target, PageId.ofString url = some id ∧ options.pages.lookup id = some page ∧
    page.path = some target ∧ path = relativePath target options.currentFile

def NamesIssue (key : String) : Prop :=
  ∃ tracker, options.trackerUrl = some tracker ∧ tracker ≠ "" ∧ tracker.toList <:+: href.toList ∧
    IsFirstKey href.toList key.toList

end

section
variable {options : Options} {anchors : List String} {href url : String}

theorem anchor?_eq_some_iff {id : String} : anchor? anchors href = some id ↔ IsAnchor anchors href id := by
  have hmark : "#".toList = ['#'] := rfl
  rw [IsAnchor, ← String.toList_inj, String.toList_append, hmark, List.singleton_append]
  unfold anchor?
  split
  · rename_i cs hcs
    rw [hcs]
    constructor
    · intro h
      split at h
      · rename_i hmem
        cases h
        exact ⟨by rw [String.toList_ofList], List.contains_iff_mem.1 hmem⟩
      · cases h
    · rintro ⟨hid, hmem⟩
      cases hid
      rw [String.ofList_toList, if_pos (List.contains_iff_mem.2 hmem)]
  · rename_i hcs
    exact ⟨nofun, fun h => absurd h.1 (hcs _)⟩

theorem splitFirst_eq_iff {fragment : Option String} :
    Text.splitFirst '#' href = (url, fragment) ↔ SplitsInto href url fragment := by
  constructor
  · intro h
    unfold Text.splitFirst at h
    cases hc : Text.cutAt '#' href.toList with
    | none =>
      rw [hc] at h
      cases h
      refine .whole fun hmem => ?_
      obtain ⟨before, after, hsplit, hbefore⟩ := List.eq_append_cons_of_mem hmem
      rw [hsplit, Text.cutAt_append hbefore] at hc
      cases hc
    | some parts =>
      rw [hc] at h
      cases h
      obtain ⟨heq, hmem⟩ := Text.of_cutAt hc
      refine .atMark (by rwa [String.toList_ofList]) ?_
      rw [← String.toList_inj, heq]
      simp
  · intro h
    cases h with
    | whole h => rw [Text.splitFirst, Text.cutAt_eq_none h]
    | @atMark _ fragment hmem heq =>
      have hcs : href.toList = url.toList ++ '#' :: fragment.toList := by simp [heq]
      rw [Text.splitFirst, hcs, Text.cutAt_append hmem]
      simp

theorem exists_splitsInto (href : String) : ∃ url fragment, SplitsInto href url fragment :=
  ⟨_, _, splitFirst_eq_iff.1 rfl⟩

theorem isWikiUrl_iff : isWikiUrl options url = true ↔ IsInWiki options url := by
  rw [isWikiUrl, Bool.and_eq_true_iff, decide_eq_true_iff, Text.contains_iff, IsInWiki]

theorem pagePath?_eq_some_iff {path : String} : pagePath? options url = some path ↔ NamesPage options url path := by
  simp only [pagePath?, Option.bind_eq_bind, Option.bind_eq_some_iff, Option.some.injEq, NamesPage]
  constructor
  · rintro ⟨id, hid, page, hpage, target, htarget, rfl⟩
    exact ⟨id, page, target, hid, hpage, htarget, rfl⟩
  · rintro ⟨id, page, target, hid, hpage, htarget, rfl⟩
    exact ⟨id, hid, page, hpage, target, htarget, rfl⟩

theorem issueKey?_eq_some_iff {key : String} : issueKey? options href = some key ↔ NamesIssue options href key := by
  have hfound : (issueKeyIn href.toList).map String.ofList = some key ↔ IsFirstKey href.toList key.toList := by
    rw [← issueKeyIn_eq_some_iff, Option.map_eq_some_iff]
    constructor
    · rintro ⟨chars, hchars, rfl⟩
      rwa [String.toList_ofList]
    · exact fun h => ⟨key.toList, h, String.ofList_toList⟩
  unfold issueKey? NamesIssue
  cases options.trackerUrl with
  | none => simp
  | some tracker =>
    simp only [Text.contains_iff, ← hfound]
    by_cases h : tracker ≠ "" ∧ tracker.toList <:+: href.toList
    · simp [h]
    · rw [if_neg h]
      refine ⟨nofun, ?_⟩
      rintro ⟨_, hsome, hne, hin, -⟩
      cases hsome
      exact absurd ⟨hne, hin⟩ h

/-! ## The rules -/

/-- The wiki decides on a link into it that has a fragment or names a page. -/
def IsWikiLink (options : Options) (url : String) (fragment : Option String) : Prop :=
  IsInWiki options url ∧ (fragment.isSome = true ∨ ∃ path, NamesPage options url path)

/-- Where a link leads by the rules, each of which needs that those before it do not hold. -/
inductive Resolves (options : Options) (anchors : List String) (href : String) : Target → Prop
  | anchor {id : String} : IsAnchor anchors href id → Resolves options anchors href (.anchor id)
  | page {url path : String} {fragment : Option String} : (∀ id, ¬ IsAnchor anchors href id) →
      SplitsInto href url fragment → IsInWiki options url → NamesPage options url path →
      Resolves options anchors href (.page path fragment)
  | unmapped {url fragment : String} : (∀ id, ¬ IsAnchor anchors href id) → SplitsInto href url (some fragment) →
      IsInWiki options url → (∀ path, ¬ NamesPage options url path) → Resolves options anchors href (.external href)
  | issue {url key : String} {fragment : Option String} : (∀ id, ¬ IsAnchor anchors href id) →
      SplitsInto href url fragment → ¬ IsWikiLink options url fragment → NamesIssue options href key →
      Resolves options anchors href (.issue key)
  | external {url : String} {fragment : Option String} : (∀ id, ¬ IsAnchor anchors href id) →
      SplitsInto href url fragment → ¬ IsWikiLink options url fragment → (∀ key, ¬ NamesIssue options href key) →
      Resolves options anchors href (.external href)

theorem exists_resolves (options : Options) (anchors : List String) (href : String) :
    ∃ target, Resolves options anchors href target := by
  by_cases ha : ∃ id, IsAnchor anchors href id
  · obtain ⟨id, ha⟩ := ha
    exact ⟨_, .anchor ha⟩
  have ha := not_exists.1 ha
  obtain ⟨url, fragment, hs⟩ := exists_splitsInto href
  by_cases hw : IsWikiLink options url fragment
  · by_cases hp : ∃ path, NamesPage options url path
    · obtain ⟨path, hp⟩ := hp
      exact ⟨_, .page ha hs hw.1 hp⟩
    · obtain ⟨_, rfl⟩ := Option.isSome_iff_exists.1 (hw.2.resolve_right hp)
      exact ⟨_, .unmapped ha hs hw.1 (not_exists.1 hp)⟩
  · by_cases hi : ∃ key, NamesIssue options href key
    · obtain ⟨key, hi⟩ := hi
      exact ⟨_, .issue ha hs hw hi⟩
    · exact ⟨_, .external ha hs hw (not_exists.1 hi)⟩

theorem classify_of_not_isWikiLink {fragment : Option String} (ha : anchor? anchors href = none)
    (hs : SplitsInto href url fragment) (hw : ¬ IsWikiLink options url fragment) :
    classify options anchors href = (issueKey? options href).elim (.external href) .issue := by
  have hpage : (if isWikiUrl options url then pagePath? options url else none) = none := by
    refine Option.eq_none_iff_forall_ne_some.2 fun path hpath => ?_
    obtain ⟨hwiki, hpath⟩ := Option.ite_none_right_eq_some.1 hpath
    exact hw ⟨isWikiUrl_iff.1 hwiki, Or.inr ⟨path, pagePath?_eq_some_iff.1 hpath⟩⟩
  have hfragment : ¬ (fragment.isSome = true ∧ isWikiUrl options url = true) := fun h =>
    hw ⟨isWikiUrl_iff.1 h.2, Or.inl h.1⟩
  simp only [classify, ha, splitFirst_eq_iff.2 hs, hpage, if_neg hfragment]
  cases issueKey? options href <;> rfl

theorem Resolves.classify_eq {target : Target} (h : Resolves options anchors href target) :
    classify options anchors href = target := by
  have anchor?_none (ha : ∀ id, ¬ IsAnchor anchors href id) : anchor? anchors href = none :=
    Option.eq_none_iff_forall_ne_some.2 fun id => mt anchor?_eq_some_iff.1 (ha id)
  cases h with
  | anchor ha => simp only [classify, anchor?_eq_some_iff.2 ha]
  | page ha hs hw hp =>
    simp only [classify, anchor?_none ha, splitFirst_eq_iff.2 hs, isWikiUrl_iff.2 hw, pagePath?_eq_some_iff.2 hp,
      if_true]
  | unmapped ha hs hw hp =>
    have hpage := Option.eq_none_iff_forall_ne_some.2 fun path => mt pagePath?_eq_some_iff.1 (hp path)
    simp only [classify, anchor?_none ha, splitFirst_eq_iff.2 hs, isWikiUrl_iff.2 hw, hpage, if_true, Option.isSome_some,
      and_self]
  | issue ha hs hw hi =>
    rw [classify_of_not_isWikiLink (anchor?_none ha) hs hw, issueKey?_eq_some_iff.2 hi, Option.elim_some]
  | external ha hs hw hi =>
    have hissue := Option.eq_none_iff_forall_ne_some.2 fun key => mt issueKey?_eq_some_iff.1 (hi key)
    rw [classify_of_not_isWikiLink (anchor?_none ha) hs hw, hissue, Option.elim_none]

/-- What follows the first `/browse/` is no key here. -/
example : classify { trackerUrl := some "https://issues.example.com" } []
    "https://issues.example.com/browse/AB/browse/CD-12x" = .issue "CD-12" := by
  decide +kernel

end

end Link

end WikiPress
