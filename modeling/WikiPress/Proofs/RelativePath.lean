import WikiPress.Path
import WikiPress.Proofs.Splitting

/-!
# Relative paths

The path from a file to a target leaves the directories that the target is not in and then goes down to the target.
Followed from the directory of the file it leads to the target, when it is read back from its text as well.
-/

namespace WikiPress

namespace Step

def IsName (step : Step) : Prop :=
  ∃ name, step = .name name

/-- The step stands in the text of a path as a part of it. -/
structure IsPart (step : Step) : Prop where
  whole : '/' ∉ step.text.toList
  read : ofPart? step.text.toList = some step

theorem isPart_up : IsPart .up :=
  ⟨by decide, by decide⟩

theorem not_isPart_root : ¬ IsPart .root :=
  fun h => h.whole (by decide)

theorem of_ofPart? {part : List Char} {step : Step} (h : ofPart? part = some step) :
    step.text.toList = part ∧ (step = .up ∨ step.IsName) := by
  unfold ofPart? at h
  split at h
  · cases h
  · split at h
    · rename_i hup
      cases h
      exact ⟨hup.symm, .inl rfl⟩
    · cases h
      exact ⟨String.toList_ofList, .inr ⟨_, rfl⟩⟩

theorem isPart_of_ofPart? {part : List Char} {step : Step} (h : ofPart? part = some step) (hwhole : '/' ∉ part) :
    IsPart step := by
  obtain ⟨htext, -⟩ := of_ofPart? h
  exact ⟨htext ▸ hwhole, htext ▸ h⟩

theorem ofFirstPart_of_ofPart? {part : List Char} {step : Step} (h : ofPart? part = some step) :
    ofFirstPart part = [step] := by
  have hword : ¬ (part = [] ∨ part = ['.']) := fun hempty => by
    rw [ofPart?, if_pos hempty] at h
    cases h
  obtain ⟨hnil, hhere⟩ := not_or.1 hword
  rw [ofFirstPart, if_neg hnil, if_neg hhere, h, Option.toList_some]

end Step

namespace Path

/-! ## Texts of paths -/

section
variable {path : Path}

theorem toString_of_parts (h : ∀ step ∈ path, step.IsPart) :
    (toString path).toList = ['/'].intercalate (path.map fun step => step.text.toList) := by
  have htext : toString path = String.intercalate "/" (path.map Step.text) := by
    cases path with
    | nil => rfl
    | cons step path =>
      cases step with
      | root => exact absurd (h .root List.mem_cons_self) Step.not_isPart_root
      | _ => rfl
  rw [htext, String.toList_intercalate, List.map_map]
  rfl

theorem ofPart?_texts (h : ∀ step ∈ path, step.IsPart) :
    (path.map fun step => step.text.toList).filterMap Step.ofPart? = path := by
  induction path with
  | nil => rfl
  | cons step path ih =>
    rw [List.map_cons, List.filterMap_cons, (h step List.mem_cons_self).read,
      ih fun step hs => h step (List.mem_cons_of_mem _ hs)]

/-- A path of parts is read back from its text. -/
theorem ofString_toString (h : ∀ step ∈ path, step.IsPart) : ofString (toString path) = path := by
  rw [ofString, toString_of_parts h]
  cases path with
  | nil => rfl
  | cons step path =>
    have hsplit : Text.splitAt '/' (['/'].intercalate ((step :: path).map fun step => step.text.toList)) =
        step.text.toList :: path.map fun step => step.text.toList := by
      refine Text.splitAt_intercalate (List.cons_ne_nil _ _) ?_
      simpa using fun s hs => (h s hs).whole
    have hfirst := (h step List.mem_cons_self).read
    have hne : ['/'].intercalate ((step :: path).map fun step => step.text.toList) ≠ [] := by
      intro hnil
      rw [hnil] at hsplit
      rw [← (List.cons.inj hsplit).1] at hfirst
      cases hfirst
    rw [ofChars, if_neg hne, hsplit]
    dsimp only
    rw [Step.ofFirstPart_of_ofPart? hfirst, ofPart?_texts fun s hs => h s (List.mem_cons_of_mem _ hs)]
    rfl

theorem mem_toString {c : Char} (h : ∀ step ∈ path, step.IsPart) (hc : c ∈ (toString path).toList) :
    c = '/' ∨ ∃ step ∈ path, c ∈ step.text.toList := by
  rw [toString_of_parts h] at hc
  clear h
  induction path with
  | nil => cases hc
  | cons step path ih =>
    cases path with
    | nil =>
      rw [List.map_singleton, List.intercalate_singleton] at hc
      exact .inr ⟨step, List.mem_singleton_self step, hc⟩
    | cons next path =>
      simp only [List.map_cons, List.intercalate_cons_cons, List.mem_append, List.mem_singleton] at hc ih
      obtain (hstep | hslash) | hrest := hc
      · exact .inr ⟨step, List.mem_cons_self, hstep⟩
      · exact .inl hslash
      · exact (ih hrest).imp_right fun ⟨s, hs, hc⟩ => ⟨s, List.mem_cons_of_mem step hs, hc⟩

end

/-- The start of an absolute path, or of another one. -/
def start (absolute : Bool) : Path :=
  if absolute then [.root] else []

theorem isAbsolute_start {names : Path} (h : ∀ step ∈ names, step.IsName) (absolute : Bool) :
    (start absolute ++ names).isAbsolute = absolute := by
  cases absolute with
  | true => rfl
  | false =>
    cases names with
    | nil => rfl
    | cons step names =>
      obtain ⟨name, rfl⟩ := h step List.mem_cons_self
      rfl

/-- The parts of a text between slashes are the steps, but for the root or the place itself at the start. -/
theorem ofString_eq_parts (s : String) : ∃ (first : Path) (parts : List (List Char)),
    (first = [] ∨ first = [.root] ∨ first = [.here]) ∧ (∀ part ∈ parts, part ∈ Text.splitAt '/' s.toList) ∧
      ofString s = first ++ parts.filterMap Step.ofPart? := by
  unfold ofString ofChars
  split
  · exact ⟨[], [], .inl rfl, fun _ hmem => absurd hmem List.not_mem_nil, rfl⟩
  · cases hsplit : Text.splitAt '/' s.toList with
    | nil => exact ⟨[], [], .inl rfl, fun _ => id, rfl⟩
    | cons part parts =>
      dsimp only
      unfold Step.ofFirstPart
      split
      · exact ⟨[.root], parts, by simp, fun _ => List.mem_cons_of_mem part, rfl⟩
      · split
        · exact ⟨[.here], parts, by simp, fun _ => List.mem_cons_of_mem part, rfl⟩
        · refine ⟨[], part :: parts, .inl rfl, fun _ => id, ?_⟩
          cases h : Step.ofPart? part <;> simp [h]

/-- A text without steps in place or up is read as the names in it, behind the root if it is absolute. -/
theorem ofString_eq_start {s : String} (h : ∀ step ∈ ofString s, step ≠ .here ∧ step ≠ .up) :
    ∃ names, ofString s = start (ofString s).isAbsolute ++ names ∧
      ∀ step ∈ names, step.IsName ∧ step.IsPart ∧ ∀ c ∈ step.text.toList, c ∈ s.toList := by
  obtain ⟨first, parts, hfirst, hparts, hs⟩ := ofString_eq_parts s
  rw [hs] at h
  have hnames : ∀ step ∈ parts.filterMap Step.ofPart?,
      step.IsName ∧ step.IsPart ∧ ∀ c ∈ step.text.toList, c ∈ s.toList := by
    intro step hstep
    obtain ⟨part, hpart, hread⟩ := List.mem_filterMap.1 hstep
    obtain ⟨hwhole, hsub⟩ := Text.of_mem_splitAt (hparts part hpart)
    obtain ⟨htext, hkind⟩ := Step.of_ofPart? hread
    exact ⟨hkind.resolve_left (h step (List.mem_append_right first hstep)).2, Step.isPart_of_ofPart? hread hwhole,
      htext ▸ hsub⟩
  refine ⟨_, ?_, hnames⟩
  obtain rfl | rfl | rfl := hfirst
  · have hrelative : isAbsolute (parts.filterMap Step.ofPart?) = false :=
      isAbsolute_start (fun step hs => (hnames step hs).1) false
    rw [hs, List.nil_append, hrelative]
    rfl
  · rw [hs]
    rfl
  · exact absurd rfl (h .here List.mem_cons_self).1

/-! ## Following a path -/

/-- Where a path leads from a directory, by its steps alone: into names, and up by leaving the last one. -/
def follow (directory : Path) : Path → Path
  | [] => directory
  | .root :: steps => follow [.root] steps
  | .here :: steps => follow directory steps
  | .up :: steps => follow directory.dropLast steps
  | .name s :: steps => follow (directory ++ [.name s]) steps

theorem follow_append (directory steps more : Path) :
    follow directory (steps ++ more) = follow (follow directory steps) more := by
  induction steps generalizing directory with
  | nil => rfl
  | cons step steps ih => cases step <;> exact ih _

theorem follow_up (directory beyond : Path) :
    follow (directory ++ beyond) (List.replicate beyond.length .up) = directory := by
  obtain ⟨n, hn⟩ : ∃ n, beyond.length = n := ⟨_, rfl⟩
  induction n generalizing beyond with
  | zero => rw [List.length_eq_zero_iff.1 hn]; exact List.append_nil directory
  | succ n ih =>
    have hne : beyond ≠ [] := List.ne_nil_of_length_eq_add_one hn
    have hlast : beyond.dropLast.length = n := by rw [List.length_dropLast, hn, Nat.add_sub_cancel]
    rw [hn, List.replicate_succ, follow, List.dropLast_append_of_ne_nil hne, ← hlast, ih _ hlast]

theorem follow_names {names : Path} (h : ∀ step ∈ names, step.IsName) (directory : Path) :
    follow directory names = directory ++ names := by
  induction names generalizing directory with
  | nil => exact (List.append_nil directory).symm
  | cons step names ih =>
    obtain ⟨name, rfl⟩ := h step List.mem_cons_self
    rw [follow, ih fun step hs => h step (List.mem_cons_of_mem _ hs), List.append_assoc]
    rfl

/-! ## Where two paths part -/

structure IsLongestCommonPrefix (common path other : Path) : Prop where
  of_path : common <+: path
  of_other : common <+: other
  longest : ∀ shared, shared <+: path → shared <+: other → shared <+: common

/-- Two paths do not begin with the same step. -/
def GoApart (path other : Path) : Prop :=
  ∀ step, path.head? = some step → other.head? ≠ some step

theorem exists_goApart (path other : Path) : ∃ common rest beyond,
    path = common ++ rest ∧ other = common ++ beyond ∧ GoApart rest beyond := by
  induction path generalizing other with
  | nil => exact ⟨[], [], other, rfl, rfl, fun _ h => nomatch h⟩
  | cons step path ih =>
    by_cases h : other.head? = some step
    · obtain ⟨other, rfl⟩ := List.head?_eq_some_iff.1 h
      obtain ⟨common, rest, beyond, hpath, hother, hapart⟩ := ih other
      exact ⟨step :: common, rest, beyond, congrArg _ hpath, congrArg _ hother, hapart⟩
    · refine ⟨[], step :: path, other, rfl, rfl, ?_⟩
      rintro _ ⟨rfl⟩
      exact h

theorem difference_nil (started : Bool) (base : Path) :
    difference started [] base = some (List.replicate base.length .up) := by
  induction base generalizing started with
  | nil => rfl
  | cons step base ih => rw [difference, ih, List.length_cons, List.replicate_succ, Option.map_some]

section
variable {rest beyond : Path} (hapart : GoApart rest beyond)
include hapart

theorem GoApart.isLongestCommonPrefix (common : Path) :
    IsLongestCommonPrefix common (common ++ rest) (common ++ beyond) where
  of_path := List.prefix_append ..
  of_other := List.prefix_append ..
  longest shared hpath hother := by
    induction common generalizing shared with
    | nil =>
      cases shared with
      | nil => exact List.nil_prefix
      | cons step shared =>
        obtain ⟨more, rfl⟩ := hpath
        obtain ⟨more', rfl⟩ := hother
        exact absurd rfl (hapart step rfl)
    | cons step common ih =>
      cases shared with
      | nil => exact List.nil_prefix
      | cons first shared =>
        rw [List.cons_append, List.cons_prefix_cons] at hpath hother
        exact List.cons_prefix_cons.2 ⟨hpath.1, ih shared hpath.2 hother.2⟩

theorem difference_append (hplain : ∀ step ∈ beyond, step ≠ .here ∧ step ≠ .up) (common : Path) :
    difference false (common ++ rest) (common ++ beyond) = some (List.replicate beyond.length .up ++ rest) := by
  induction common with
  | nil =>
    cases beyond with
    | nil => cases rest <;> rfl
    | cons other beyond =>
      cases rest with
      | nil => simpa using difference_nil false (other :: beyond)
      | cons step rest =>
        have hne : step ≠ other := fun heq => hapart step rfl (heq ▸ rfl)
        obtain ⟨hhere, hup⟩ := hplain other List.mem_cons_self
        simp [difference, hne, hhere, hup, List.replicate_succ, List.map_const']
  | cons step common ih => simpa [difference] using ih

end

/-! ## The way back -/

theorem parent_start {names : Path} (h : ∀ step ∈ names, step.IsName) {absolute : Bool}
    (hroot : start absolute ++ names ≠ [.root]) :
    parent (start absolute ++ names) = start absolute ++ names.dropLast := by
  by_cases hnil : names = []
  · subst hnil
    cases absolute with
    | true => exact absurd rfl hroot
    | false => rfl
  · have hlast : (start absolute ++ names).getLast? ≠ some .root := by
      rw [List.getLast?_append, List.getLast?_eq_some_getLast hnil, Option.some_or]
      intro hlast
      obtain ⟨name, hname⟩ := h _ (List.getLast_mem hnil)
      rw [hname] at hlast
      cases hlast
    rw [parent, if_neg hlast, List.dropLast_append_of_ne_nil hnil]

/-- The text of a relative path is that of the steps between the two places. -/
theorem ofString_relativePath {target current : String} {relative : Path}
    (habsolute : (ofString target).isAbsolute = (ofString current).parent.isAbsolute)
    (hdifference : difference false (ofString target) (ofString current).parent = some relative)
    (hparts : ∀ step ∈ relative, step.IsPart ∧ '\\' ∉ step.text.toList) :
    ofString (relativePath target current) = relative := by
  have hslash : '\\' ∉ (toString relative).toList := fun hmem => by
    obtain hslash | ⟨step, hstep, hmem⟩ := mem_toString (fun step hs => (hparts step hs).1) hmem
    · exact absurd hslash (by decide)
    · exact (hparts step hstep).2 hmem
  simp only [relativePath, if_pos habsolute, hdifference, Option.map_some, Option.getD_some]
  rw [Text.replaceChar_of_not_mem hslash, String.ofList_toList]
  exact ofString_toString fun step hs => (hparts step hs).1

/-- **Relative paths lead back to their target.** Followed from the directory of the current file, the path to a
target gives the steps of the target. It goes up once for each step of the directory behind the longest common prefix,
and then only into names. -/
theorem follow_relativePath {target current : String}
    (habsolute : (ofString target).isAbsolute = (ofString current).isAbsolute)
    (htarget : ∀ step ∈ ofString target, step ≠ .here ∧ step ≠ .up)
    (hcurrent : ∀ step ∈ ofString current, step ≠ .here ∧ step ≠ .up) (hroot : ofString current ≠ [.root])
    (hslash : '\\' ∉ target.toList) :
    follow (ofString current).parent (ofString (relativePath target current)) = ofString target ∧
      ∃ common names, IsLongestCommonPrefix common (ofString target) (ofString current).parent ∧
        ofString (relativePath target current) =
          List.replicate ((ofString current).parent.length - common.length) .up ++ names ∧
        ∀ step ∈ names, step.IsName := by
  obtain ⟨names, hnames, hdown⟩ := ofString_eq_start htarget
  obtain ⟨below, hbelow, hdown'⟩ := ofString_eq_start hcurrent
  obtain ⟨absolute, hstart⟩ : ∃ absolute, (ofString target).isAbsolute = absolute := ⟨_, rfl⟩
  rw [hstart] at hnames
  rw [← habsolute, hstart] at hbelow
  have hparent : (ofString current).parent = start absolute ++ below.dropLast := by
    rw [hbelow] at hroot ⊢
    exact parent_start (fun step hs => (hdown' step hs).1) hroot
  have hrelative : (ofString current).parent.isAbsolute = absolute := by
    rw [hparent]
    exact isAbsolute_start (fun step hs => (hdown' step (List.dropLast_subset _ hs)).1) absolute
  -- The start is common to both, so they part where the names behind it do.
  obtain ⟨common, rest, beyond, hrest, hbeyond, hapart⟩ := exists_goApart names below.dropLast
  rw [hrest, ← List.append_assoc] at hnames
  rw [hbeyond, ← List.append_assoc] at hparent
  have hgone : ∀ step ∈ rest, step.IsName ∧ step.IsPart ∧ '\\' ∉ step.text.toList := by
    intro step hs
    obtain ⟨hname, hpart, hsub⟩ := hdown step (hrest ▸ List.mem_append_right common hs)
    exact ⟨hname, hpart, fun hmem => hslash (hsub _ hmem)⟩
  have hplain : ∀ step ∈ beyond, step ≠ .here ∧ step ≠ .up := by
    intro step hs
    obtain ⟨name, rfl⟩ := (hdown' step (List.dropLast_subset _ (hbeyond ▸ List.mem_append_right common hs))).1
    exact ⟨nofun, nofun⟩
  have hsteps : ofString (relativePath target current) = List.replicate beyond.length .up ++ rest := by
    refine ofString_relativePath (hstart.trans hrelative.symm) ?_ ?_
    · rw [hnames, hparent]
      exact difference_append hapart hplain _
    · intro step hs
      obtain hup | hname := List.mem_append.1 hs
      · rw [List.eq_of_mem_replicate hup]
        exact ⟨Step.isPart_up, by decide⟩
      · exact (hgone step hname).2
  rw [hsteps, hnames, hparent]
  refine ⟨?_, start absolute ++ common, rest, hapart.isLongestCommonPrefix _, ?_, fun step hs => (hgone step hs).1⟩
  · rw [follow_append, follow_up, follow_names fun step hs => (hgone step hs).1]
  · rw [List.length_append, Nat.add_sub_cancel_left]

/-- Two files below directories of one start, with a slash too many on the way. -/
theorem follow_relativePath_sibling :
    relativePath "/wiki//guide/Start.adoc" "/wiki/guides/2024/Index.adoc" = "../../guide/Start.adoc" ∧
      follow (ofString "/wiki/guides/2024/Index.adoc").parent (ofString "../../guide/Start.adoc") =
        ofString "/wiki//guide/Start.adoc" := by
  have hrelative : relativePath "/wiki//guide/Start.adoc" "/wiki/guides/2024/Index.adoc" = "../../guide/Start.adoc" := by
    decide +kernel
  refine ⟨hrelative, hrelative ▸ (follow_relativePath ?_ ?_ ?_ ?_ ?_).1⟩
  all_goals decide +kernel

end Path

end WikiPress
