import WikiPress.Dictionary
import WikiPress.Files.Tree
import WikiPress.Proofs.Steps

/-!
# Texts of files

What the operations on a file tree do to the texts in it. Making directories changes none of them, and a write that
succeeds changes the one text that its path leads to (`wrote_of_write`).
-/

namespace WikiPress.FileTree

/-- The text of the file with these names from the top, if one is there. -/
def text? (tree : FileTree) (names : List String) : Option String :=
  match tree.find? names with
  | some (.file text) => some text
  | _ => none

/-- The same files with the same texts; directories may differ. -/
def SameTexts (before after : FileTree) : Prop :=
  ∀ names, after.text? names = before.text? names

/-- A text stands in the file at a path, and every other file is as before. -/
structure Wrote (before : FileTree) (path text : String) (after : FileTree) : Prop where
  read : after.read path = .ok text
  others : ∀ names, after.target path ≠ .ok names → after.text? names = before.text? names

theorem SameTexts.refl (tree : FileTree) : tree.SameTexts tree :=
  fun _ => rfl

theorem SameTexts.trans {a b c : FileTree} (h : a.SameTexts b) (h' : b.SameTexts c) : a.SameTexts c :=
  fun names => (h' names).trans (h names)

theorem SameTexts.wrote {before tree after : FileTree} {path text : String} (h : before.SameTexts tree)
    (hw : tree.Wrote path text after) : before.Wrote path text after where
  read := hw.read
  others names hn := (hw.others names hn).trans (h names)

/-! ## Entries -/

theorem lookup_go (names other : List String) (entry : Entry) (entries : List (List String × Entry)) :
    (set.go names entry entries).lookup other = if other = names then some entry else entries.lookup other := by
  induction entries with
  | nil => exact Dictionary.lookup_cons other names entry []
  | cons old rest ih =>
    unfold set.go
    grind [Dictionary.lookup_cons]

theorem find?_set (tree : FileTree) {names : List String} (hn : names ≠ []) (entry : Entry) (other : List String) :
    (tree.set names entry).find? other = if other = names then some entry else tree.find? other := by
  unfold find?
  by_cases h : other = []
  · rw [if_pos h, if_pos h, if_neg (h ▸ hn.symm)]
  · rw [if_neg h, if_neg h]
    exact lookup_go names other entry tree.entries

theorem text?_set (tree : FileTree) {names : List String} (hn : names ≠ []) (text : String) (other : List String) :
    (tree.set names (.file text)).text? other = if other = names then some text else tree.text? other := by
  unfold text?
  rw [find?_set tree hn]
  by_cases h : other = names
  · simp only [if_pos h]
  · simp only [if_neg h]

theorem sameTexts_set_directory {tree : FileTree} {names : List String} (hn : names ≠ [])
    (h : tree.find? names = none) : tree.SameTexts (tree.set names .directory) := by
  intro other
  unfold text?
  rw [find?_set tree hn]
  by_cases ho : other = names
  · rw [if_pos ho, ho, h]
  · rw [if_neg ho]

/-! ## Ways -/

theorem directoryOf_eq_ok {tree : FileTree} {cs : List Char} {parts : List (List Char)} {names : List String} :
    tree.directoryOf cs parts = .ok names ↔ ¬cs.contains '\x00' = true ∧ ¬cs = [] ∧ ¬pathLimit ≤ byteLength cs ∧
      tree.walk [] parts.dropLast = .ok names := by
  unfold directoryOf
  simp only [guard_eq_ok]

theorem spotOf_eq_ok {tree : FileTree} {cs : List Char} {parts : List (List Char)} {spot : Spot} :
    tree.spotOf cs parts = .ok spot ↔ ∃ directory, tree.directoryOf cs parts = .ok directory ∧
      ¬longestName < byteLength (parts.getLast?.getD []) ∧ ⟨directory, parts.getLast?.getD []⟩ = spot := by
  unfold spotOf
  simp only [bind_eq_ok, guard_eq_ok, Except.ok.injEq]

section
variable {tree after : FileTree}
  (hd : ∀ names, tree.find? names = some .directory → after.find? names = some .directory)
include hd

theorem walk_mono : ∀ (parts : List (List Char)) {here there : List String},
    tree.walk here parts = .ok there → after.walk here parts = .ok there
  | [], _, _, h => h
  | part :: parts, here, there, h => by
    unfold walk at h ⊢
    by_cases hh : part = [] ∨ part = ['.']
    · rw [if_pos hh] at h ⊢
      exact walk_mono parts h
    rw [if_neg hh] at h ⊢
    by_cases hu : part = ['.', '.']
    · rw [if_pos hu] at h ⊢
      exact walk_mono parts h
    rw [if_neg hu] at h ⊢
    by_cases hl : longestName < byteLength part
    · rw [if_pos hl] at h
      cases h
    rw [if_neg hl] at h ⊢
    simp only at h ⊢
    cases hf : tree.find? (here ++ [String.ofList part]) with
    | none => rw [hf] at h; cases h
    | some entry =>
      rw [hf] at h
      cases entry with
      | file text => cases h
      | directory =>
        rw [hd _ hf]
        exact walk_mono parts h

/-- A way through directories is there as long as they are. -/
theorem spot_mono {name : String} {spot : Spot} (h : tree.spot name = .ok spot) : after.spot name = .ok spot := by
  unfold FileTree.spot at h ⊢
  simp only [spotOf_eq_ok, directoryOf_eq_ok] at h ⊢
  obtain ⟨directory, ⟨hnul, hempty, hlong, hwalk⟩, hlast⟩ := h
  exact ⟨directory, ⟨hnul, hempty, hlong, walk_mono hd _ hwalk⟩, hlast⟩

end

/-! ## Operations -/

def Spot.names (spot : Spot) : List String :=
  spot.directory ++ [.ofList spot.last]

theorem Spot.names_ne_nil (spot : Spot) : spot.names ≠ [] := by
  simp [names]

/-- Does a path say that a directory is meant? -/
def EndsOpen (path : String) : Prop :=
  Text.splitAt '/' path.toList ≠ [[]] ∧ (Text.splitAt '/' path.toList).getLast? = some []

theorem target_eq_ok {tree : FileTree} {path : String} {names : List String} :
    tree.target path = .ok names ↔ ¬EndsOpen path ∧ ∃ spot, tree.spot path = .ok spot ∧ ¬isDots spot.last = true ∧
      ¬tree.find? spot.names = some .directory ∧ spot.names = names := by
  unfold target
  by_cases h : Text.splitAt '/' path.toList ≠ [[]] ∧ (Text.splitAt '/' path.toList).getLast? = some []
  · simp [h, EndsOpen, bind_eq_ok]
  · simp only [h, EndsOpen, if_false, not_false_iff, true_and, bind_eq_ok, guard_eq_ok, Except.ok.injEq]
    rfl

theorem write_eq_ok {tree after : FileTree} {path text : String} :
    tree.write path text = .ok after ↔ ∃ names, tree.target path = .ok names ∧ tree.set names (.file text) = after := by
  unfold write
  simp only [bind_eq_ok, Except.ok.injEq]

theorem makeDirectory_eq_ok {tree after : FileTree} {path : String} (h : tree.makeDirectory path = .ok after) :
    ∃ spot : Spot, tree.find? spot.names = none ∧ tree.set spot.names .directory = after := by
  unfold makeDirectory at h
  simp only [bind_eq_ok, guard_eq_ok] at h
  obtain ⟨spot, -, -, h⟩ := h
  refine ⟨spot, ?_⟩
  split at h
  · cases h
  · rename_i hf
    exact ⟨hf, Except.ok.inj h⟩

theorem sameTexts_makeDirectory {tree after : FileTree} {path : String} (h : tree.makeDirectory path = .ok after) :
    tree.SameTexts after := by
  obtain ⟨spot, hf, rfl⟩ := makeDirectory_eq_ok h
  exact sameTexts_set_directory spot.names_ne_nil hf

/-- **A write changes one text.** -/
theorem wrote_of_write {tree after : FileTree} {path text : String} (h : tree.write path text = .ok after) :
    tree.Wrote path text after := by
  obtain ⟨names, htarget, rfl⟩ := write_eq_ok.1 h
  obtain ⟨hopen, spot, hspot, hdots, hfree, rfl⟩ := target_eq_ok.1 htarget
  have hfind := find?_set tree spot.names_ne_nil (.file text)
  have hd : ∀ names, tree.find? names = some .directory →
      (tree.set spot.names (.file text)).find? names = some .directory := by
    intro names hn
    rw [hfind, if_neg, hn]
    rintro rfl
    exact hfree hn
  have hspot' := spot_mono hd hspot
  constructor
  · have hentry : (tree.set spot.names (.file text)).entry path = .ok (.file text) := by
      have hfound : (tree.set spot.names (.file text)).find? (spot.directory ++ [.ofList spot.last]) =
          some (.file text) := (hfind spot.names).trans (if_pos rfl)
      rw [entry, bind_eq_ok]
      exact ⟨spot, hspot', by rw [if_neg hdots, hfound]⟩
    rw [read, bind_eq_ok]
    exact ⟨.file text, hentry, rfl⟩
  · intro names hn
    rw [text?_set tree spot.names_ne_nil, if_neg]
    rintro rfl
    refine hn (target_eq_ok.2 ⟨hopen, spot, hspot', hdots, ?_, rfl⟩)
    rw [hfind, if_pos rfl]
    exact nofun

end WikiPress.FileTree
