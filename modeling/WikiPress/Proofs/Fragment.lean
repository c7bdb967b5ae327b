import WikiPress.PageId

/-!
# Fragments and page ids

What stands behind the first `#` of a URL is not looked at. But a fragment keeps the blanks before it, which do not
count where a URL ends: a URL that ends in no blank names the same page with a fragment.
-/

namespace WikiPress

/-! ## Cutting at a character -/

namespace Text

theorem cutAt_append {c : Char} {before : List Char} (h : c ∉ before) (after : List Char) :
    cutAt c (before ++ c :: after) = some (before, after) := by
  induction before with
  | nil => simp [cutAt]
  | cons d before ih =>
    obtain ⟨hd, hb⟩ := not_or.1 (mt List.mem_cons.2 h)
    simp [cutAt, Ne.symm hd, ih hb]

theorem cutAt_eq_none {c : Char} {cs : List Char} (h : c ∉ cs) : cutAt c cs = none := by
  induction cs with
  | nil => rfl
  | cons d cs ih =>
    obtain ⟨hd, hc⟩ := not_or.1 (mt List.mem_cons.2 h)
    simp [cutAt, Ne.symm hd, ih hc]

theorem of_cutAt {c : Char} {cs before after : List Char} (h : cutAt c cs = some (before, after)) :
    cs = before ++ c :: after ∧ c ∉ before := by
  induction cs generalizing before with
  | nil => cases h
  | cons d cs ih =>
    unfold cutAt at h
    by_cases hd : d = c
    · rw [if_pos hd] at h
      cases h
      exact ⟨by rw [hd]; rfl, List.not_mem_nil⟩
    · rw [if_neg hd, Option.map_eq_some_iff] at h
      obtain ⟨⟨a, b⟩, hab, he⟩ := h
      cases he
      obtain ⟨rfl, ha⟩ := ih hab
      exact ⟨rfl, mt List.mem_cons.1 (not_or.2 ⟨Ne.symm hd, ha⟩)⟩

end Text

namespace Url

/-! ## Blanks around and in a URL -/

/-- Blanks and controls, which do not count around a URL. -/
def isOuter (c : Char) : Bool :=
  c.toNat ≤ 0x20

/-- Tabs and line ends do not count anywhere in a URL. -/
def isKept (c : Char) : Bool :=
  c != '\t' && c != '\n' && c != '\r'

/-- A URL at whose end there are blanks that do not count because they are at its end. -/
def endsBlank (cs : List Char) : Bool :=
  ((cs.filter isKept).getLast?).any isOuter

theorem clean_eq (cs : List Char) :
    clean cs = ((cs.dropWhile isOuter).reverse.dropWhile isOuter).reverse.filter isKept := rfl

theorem dropWhile_append_fragment (cs after : List Char) :
    (cs ++ '#' :: after).dropWhile isOuter = cs.dropWhile isOuter ++ '#' :: after := by
  have hmark : ('#' :: after).dropWhile isOuter = '#' :: after := List.dropWhile_cons_of_neg (by decide)
  rw [List.dropWhile_append]
  split
  · rename_i h
    rw [List.isEmpty_iff.1 h, hmark, List.nil_append]
  · rfl

theorem clean_fragment (before after : List Char) :
    ∃ rest, clean (before ++ '#' :: after) = (before.dropWhile isOuter).filter isKept ++ '#' :: rest := by
  let rest := (after.reverse.dropWhile isOuter).reverse
  have htrim (cs : List Char) :
      ((cs ++ '#' :: after).reverse.dropWhile isOuter).reverse = cs ++ '#' :: rest := by
    have hrev : (cs ++ '#' :: after).reverse = after.reverse ++ '#' :: cs.reverse := by simp
    rw [hrev, dropWhile_append_fragment]
    simp [rest]
  refine ⟨rest.filter isKept, ?_⟩
  rw [clean_eq, dropWhile_append_fragment, htrim, List.filter_append, List.filter_cons_of_pos (by decide)]

theorem clean_of_not_endsBlank {cs : List Char} (h : endsBlank cs = false) :
    clean cs = (cs.dropWhile isOuter).filter isKept := by
  let body := cs.dropWhile isOuter
  let tail := (body.reverse.takeWhile isOuter).reverse
  have hbody : (body.reverse.dropWhile isOuter).reverse ++ tail = body := by
    rw [← List.reverse_append, List.takeWhile_append_dropWhile, List.reverse_reverse]
  have hsuffix : tail <:+ cs := List.IsSuffix.trans ⟨_, hbody⟩ (List.dropWhile_suffix _)
  have hall : ∀ c ∈ body.reverse.takeWhile isOuter, isOuter c = true := List.all_eq_true.1 List.all_takeWhile
  -- What is trimmed off is blank; if any of it were kept, the last of that would be the last character at all.
  have htail : tail.filter isKept = [] := by
    cases hlast : (tail.filter isKept).getLast? with
    | none => exact List.getLast?_eq_none_iff.1 hlast
    | some c =>
      have hc : c ∈ body.reverse.takeWhile isOuter :=
        List.mem_reverse.1 (List.mem_filter.1 (List.mem_of_getLast? hlast)).1
      obtain ⟨front, hfront⟩ := hsuffix.filter isKept
      rw [endsBlank, ← hfront, List.getLast?_append, hlast, Option.some_or, Option.any_some,
        hall c hc] at h
      cases h
  have hsplit : body.filter isKept =
      (body.reverse.dropWhile isOuter).reverse.filter isKept ++ tail.filter isKept := by
    rw [← List.filter_append, hbody]
  rw [htail, List.append_nil] at hsplit
  exact hsplit.symm

/-! ## Cutting off the fragment -/

def Cut.open (c : Cut) : Cut :=
  { c with followed := true }

theorem cut_fragment {body : List Char} (h : '#' ∉ body) (rest : List Char) :
    cut (body ++ '#' :: rest) = (cut body).open := by
  simp only [cut, Text.cutAt_append h, Text.cutAt_eq_none h]
  cases Text.cutAt '?' body <;> rfl

theorem query_of_cut {cs : List Char} (h : (cut cs).followed = false) : (cut cs).query = none := by
  unfold cut at h ⊢
  cases hf : Text.cutAt '#' cs with
  | none =>
    simp only [hf] at h ⊢
    cases hq : Text.cutAt '?' cs with
    | none => rfl
    | some parts => simp [hq] at h
  | some parts =>
    simp only [hf] at h ⊢
    cases hq : Text.cutAt '?' parts.1 <;> simp [hq] at h

/-- What a URL is read from, once it is cut. -/
def ofCut (c : Cut) : Option Url :=
  match splitScheme c.body with
  | none => ofRelative c c.body
  | some (scheme, rest) =>
    match ofAbsolute c scheme rest with
    | some url => some url
    | none =>
      if scheme = "http".toList ∧ (rest.takeWhile (isSlash .web)).length < 2 then ofRelative c rest
      else none

theorem ofChars_eq (cs : List Char) : ofChars cs = ofCut (cut (clean cs)) := rfl

theorem ofChars_fragment {before : List Char} (h : '#' ∉ before) (after : List Char) :
    ofChars (before ++ '#' :: after) = ofCut (cut ((before.dropWhile isOuter).filter isKept)).open := by
  have hbody : '#' ∉ (before.dropWhile isOuter).filter isKept := by
    intro hm
    exact h ((List.dropWhile_sublist _).subset (List.mem_filter.1 hm).1)
  obtain ⟨rest, hrest⟩ := clean_fragment before after
  rw [ofChars_eq, hrest, cut_fragment hbody]

/-! ## With and without a fragment -/

/-- What is read with a fragment behind it, and what without. They differ where the closed URL is one of neither
path nor query. -/
def Opens (closed opened : Option Url) : Prop :=
  opened = closed ∨ (closed = some ⟨none, none⟩ ∧ opened = none)

/-- What follows the host in an authority that has been taken apart. -/
def afterHost (scheme : Scheme) (credentials location rest : List Char) : Option (List Char) :=
  let (host, afterHost) := splitHost false location
  let number := (afterHost.drop 1).takeWhile (· != '\\')
  let beyond := (afterHost.drop 1).dropWhile (· != '\\')
  if host = [] ∧ (scheme.isSpecial ∨ afterHost ≠ [] ∨ (credentials ≠ [] ∧ credentials ≠ [':'])) then none
  else if !(if scheme.isSpecial then Host.isValid host else Host.isValidOpaque host) then none
  else if !isNumber16 number then none
  else some (beyond ++ rest)

theorem afterAuthority_eq (scheme : Scheme) (followed : Bool) (cs : List Char) :
    afterAuthority scheme followed cs =
      let authority := cs.takeWhile fun c => !isSlash scheme c
      let rest := cs.dropWhile fun c => !isSlash scheme c
      let parts := (splitCredentials authority).getD ([], authority)
      if (authority.head? = some '@' ∧ parts.1 = []) ∧ parts.2 = [] ∧ (followed ∨ rest ≠ []) then none
      else afterHost scheme parts.1 parts.2 rest := rfl

theorem afterHost_nil (scheme : Scheme) (credentials : List Char) :
    afterHost scheme credentials [] [] = none ∨
      (scheme = .other ∧ afterHost scheme credentials [] [] = some []) := by
  have hspecial (h : scheme.isSpecial = true) : afterHost scheme credentials [] [] = none := by
    simp [afterHost, splitHost, h]
  cases scheme with
  | web => exact Or.inl (hspecial rfl)
  | file => exact Or.inl (hspecial rfl)
  | other =>
    have hhost : Host.isValidOpaque [] = true := by decide
    by_cases hc : credentials ≠ [] ∧ credentials ≠ [':']
    · exact Or.inl (by simp [afterHost, splitHost, hc])
    · exact Or.inr ⟨rfl, by simp [afterHost, splitHost, Scheme.isSpecial, hc, hhost, isNumber16, Text.decimalValue]⟩

theorem afterAuthority_open (scheme : Scheme) (cs : List Char) :
    afterAuthority scheme true cs = afterAuthority scheme false cs ∨
      (afterAuthority scheme true cs = none ∧ scheme = .other ∧ afterAuthority scheme false cs = some []) := by
  simp only [afterAuthority_eq]
  generalize (splitCredentials _).getD _ = parts
  generalize cs.dropWhile _ = rest
  -- Whether a fragment follows counts only for an authority that is just `@` and has nothing behind it.
  by_cases hr : rest = []
  · subst hr
    by_cases he : ((cs.takeWhile fun c => !isSlash scheme c).head? = some '@' ∧ parts.1 = []) ∧ parts.2 = []
    · rw [if_pos (by simp [he]), if_neg (by simp), he.2]
      rcases afterHost_nil scheme parts.1 with h | ⟨hs, h⟩
      · exact Or.inl h.symm
      · exact Or.inr ⟨rfl, hs, h⟩
    · rw [if_neg fun h => he ⟨h.1, h.2.1⟩, if_neg fun h => he ⟨h.1, h.2.1⟩]
      exact Or.inl rfl
  · simp [hr]

theorem withAuthority_opens (scheme : Scheme) {c : Cut} (hf : c.followed = false) (hq : c.query = none)
    (cs : List Char) : Opens (withAuthority scheme c cs) (withAuthority scheme c.open cs) := by
  have hwith (c' : Cut) (hq : c'.query = none) : withAuthority scheme c' cs =
      (afterAuthority scheme c'.followed cs).bind fun rest => some ⟨pathAfterHost scheme rest, none⟩ := by
    rw [← hq]
    rfl
  have hfollowed : c.open.followed = true := rfl
  rw [hwith c hq, hwith c.open hq, hf, hfollowed]
  rcases afterAuthority_open scheme cs with h | ⟨hopen, rfl, hclosed⟩
  · exact Or.inl (by rw [h])
  · exact Or.inr ⟨by rw [hclosed]; rfl, by rw [hopen]; rfl⟩

section
variable {c : Cut} (hf : c.followed = false) (hq : c.query = none)
include hf hq

theorem ofAbsolute_opens (scheme cs : List Char) : Opens (ofAbsolute c scheme cs) (ofAbsolute c.open scheme cs) := by
  unfold ofAbsolute
  cases Scheme.ofName scheme with
  | file => exact Or.inl rfl
  | web => exact withAuthority_opens .web hf hq _
  | other =>
    simp only
    split
    · exact withAuthority_opens .other hf hq _
    · exact Or.inl rfl
    · exact Or.inl rfl

theorem ofRelative_opens (cs : List Char) : Opens (ofRelative c cs) (ofRelative c.open cs) := by
  unfold ofRelative
  split
  · exact withAuthority_opens .web hf hq _
  · split
    · split
      · exact withAuthority_opens .web hf hq _
      · exact Or.inl rfl
    · exact Or.inl rfl
  · exact Or.inl rfl

theorem ofCut_open {url : Url} (h : ofCut c = some url) (hp : url ≠ ⟨none, none⟩) : ofCut c.open = some url := by
  have hsame {closed opened : Option Url} (ho : Opens closed opened) (hc : closed = some url) : opened = some url := by
    rcases ho with ho | ⟨hn, -⟩
    · exact ho.trans hc
    · exact absurd (Option.some.inj (hc.symm.trans hn)) hp
  have hbody : c.open.body = c.body := rfl
  unfold ofCut at h ⊢
  rw [hbody]
  cases hs : splitScheme c.body with
  | none =>
    rw [hs] at h
    exact hsame (ofRelative_opens hf hq c.body) h
  | some parts =>
    obtain ⟨scheme, rest⟩ := parts
    simp only [hs] at h ⊢
    rcases ofAbsolute_opens hf hq scheme rest with ho | ⟨hn, -⟩
    · rw [ho]
      cases ha : ofAbsolute c scheme rest with
      | some url' =>
        rw [ha] at h
        exact h
      | none =>
        simp only [ha] at h ⊢
        split at h
        · rename_i hslash
          rw [if_pos hslash]
          exact hsame (ofRelative_opens hf hq rest) h
        · cases h
    · simp only [hn, Option.some.injEq] at h
      exact absurd h.symm hp

end

theorem ofChars_before_fragment {before : List Char} {url : Url} (hf : '#' ∉ before) (hb : endsBlank before = false)
    (h : ofChars before = some url) (hp : url ≠ ⟨none, none⟩) (after : List Char) :
    ofChars (before ++ '#' :: after) = some url := by
  rw [ofChars_eq, clean_of_not_endsBlank hb] at h
  rw [ofChars_fragment hf]
  generalize hc : cut ((before.dropWhile isOuter).filter isKept) = c at h ⊢
  cases hfollowed : c.followed with
  | true =>
    have hopen : c.open = c := by
      rw [Cut.open, ← hfollowed]
    rwa [hopen]
  | false => exact ofCut_open hfollowed (hc ▸ query_of_cut (hc ▸ hfollowed)) h hp

end Url

/-! ## Page ids -/

namespace PageId

theorem ofString_fragment {before : List Char} (h : '#' ∉ before) (after : List Char) :
    ofString (.ofList (before ++ '#' :: after)) = ofString (.ofList (before ++ ['#'])) := by
  unfold ofString Url.ofString
  rw [String.toList_ofList, String.toList_ofList, Url.ofChars_fragment h, Url.ofChars_fragment h]

/-- **Fragments and pages.** A URL that ends in no blank names its page with any fragment behind it, too. -/
theorem ofString_before_fragment {before : List Char} {id : String} (hf : '#' ∉ before)
    (hb : Url.endsBlank before = false) (h : ofString (.ofList before) = some id) (after : List Char) :
    ofString (.ofList (before ++ '#' :: after)) = some id := by
  unfold ofString Url.ofString at h ⊢
  rw [String.toList_ofList] at h ⊢
  obtain ⟨chars, hchars, hid⟩ := Option.map_eq_some_iff.1 h
  obtain ⟨url, hurl, hof⟩ := Option.bind_eq_some_iff.1 hchars
  have hp : url ≠ ⟨none, none⟩ := by
    rintro rfl
    cases hof
  rw [Url.ofChars_before_fragment hf hb hurl hp after, Option.bind_some, hof, ← hid]
  rfl

end PageId

end WikiPress
