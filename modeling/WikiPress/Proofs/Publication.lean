import WikiPress.Proofs.Contents
import WikiPress.Publish

/-!
# Published files

What publishing to a file does to a file tree. It makes directories first, and after that it writes once: so the text
stands in its file and all others are as before, or nothing but directories is new (`publish_file`).
-/

namespace WikiPress

/-! ## Steps on a file tree -/

namespace FileTree

section
variable {result : FileTree → Except FileFault FileTree} {tree : FileTree}

theorem run_update : (update result).run tree =
    match result tree with
    | .ok after => (Except.ok (), after)
    | .error fault => (Except.error fault, tree) := rfl

theorem update_ok {after : FileTree} (h : result tree = .ok after) :
    (update result).run tree = (Except.ok (), after) := by
  rw [run_update, h]

theorem update_error {fault : FileFault} (h : result tree = .error fault) :
    (update result).run tree = (Except.error fault, tree) := by
  rw [run_update, h]

end

/-- A step after which all texts are as before. -/
def KeepsTexts {α : Type} (step : StateM FileTree α) : Prop :=
  ∀ tree : FileTree, tree.SameTexts (step.run tree).2

namespace KeepsTexts

variable {α β : Type}

theorem pure (a : α) : KeepsTexts (pure a) :=
  SameTexts.refl

theorem bind {step : StateM FileTree α} {next : α → StateM FileTree β} (h : KeepsTexts step)
    (hn : ∀ a, KeepsTexts (next a)) : KeepsTexts (step >>= next) :=
  fun tree => (h tree).trans (hn (step.run tree).1 (step.run tree).2)

theorem update {result : FileTree → Except FileFault FileTree}
    (h : ∀ tree after, result tree = .ok after → tree.SameTexts after) : KeepsTexts (FileTree.update result) := by
  intro tree
  cases hr : result tree with
  | ok after =>
    rw [update_ok hr]
    exact h tree after hr
  | error fault =>
    rw [update_error hr]
    exact .refl tree

end KeepsTexts

theorem ensureDirectory_keeps (name : String) : KeepsTexts (system.ensureDirectory name) := by
  apply KeepsTexts.bind (.update fun _ _ => sameTexts_makeDirectory)
  intro result
  cases result with
  | ok _ => exact .pure _
  | error fault =>
    have asked : KeepsTexts (system.isDirectory name) := SameTexts.refl
    apply asked.bind
    intro there
    cases there <;> exact .pure _

theorem makeDirectories_keeps : ∀ steps : List Step, KeepsTexts (system.makeDirectories steps)
  | [] => .pure _
  | step :: outer => by
    unfold FileSystem.makeDirectories
    apply KeepsTexts.bind (ensureDirectory_keeps _)
    intro result
    split
    · exact .pure _
    · apply KeepsTexts.bind (makeDirectories_keeps outer)
      intro outcome
      cases outcome with
      | ok _ => exact ensureDirectory_keeps _
      | error fault => exact .pure _
    · exact .pure _

end FileTree

/-! ## Publishing -/

/-- How a text that is meant for a file ends: it stands there and all else is as before, or the fault is one of the
file system and no text is changed. -/
def EndsWriting {α : Type} (before : FileTree) (path text : String) : Except Failure α → FileTree → Prop
  | .ok _, after => before.Wrote path text after
  | .error failure, after => (∃ reason, failure = .file reason) ∧ before.SameTexts after

theorem writeFile_ends (path text : String) (before : FileTree) :
    let (result, after) := (writeFile FileTree.system path text).run before
    EndsWriting before path text result after := by
  have hkeeps := FileTree.makeDirectories_keeps (Path.ofString path).parent.reverse before
  generalize hmade : (FileTree.system.makeDirectories (Path.ofString path).parent.reverse).run before = made at hkeeps
  obtain ⟨result, tree⟩ := made
  rw [writeFile, run_bind hmade]
  cases result with
  | error fault => exact ⟨⟨_, rfl⟩, hkeeps⟩
  | ok _ =>
    cases hw : tree.write path text with
    | ok after =>
      have hwrite : (FileTree.system.write path text).run tree = (.ok (), after) := FileTree.update_ok hw
      simp only [run_bind hwrite]
      exact hkeeps.wrote (FileTree.wrote_of_write hw)
    | error fault =>
      have hwrite : (FileTree.system.write path text).run tree = (.error fault, tree) := FileTree.update_error hw
      simp only [run_bind hwrite]
      exact ⟨⟨_, rfl⟩, hkeeps⟩

theorem publish_ends (publication : Publication) {path : String} (h : publication.output = some path)
    (before : FileTree) :
    let (result, after) := (publish FileTree.system publication).run before
    EndsWriting before path publication.text result after ∧
      ∀ published, result = .ok published → published = ⟨.file path, publication.mentions⟩ := by
  have hwrite := writeFile_ends path publication.text before
  unfold publish
  simp only [h, StateT.run_bind]
  generalize (writeFile FileTree.system path publication.text).run before = written at hwrite ⊢
  obtain ⟨result, after⟩ := written
  cases result with
  | ok _ => exact ⟨hwrite, fun _ he => (Except.ok.inj he).symm⟩
  | error failure => exact ⟨hwrite, fun _ he => nomatch he⟩

/-- **A file holds what publishing in memory gives.** -/
theorem publish_file (document : Node) (title : Option String) (options : Options) (path : String)
    (before : FileTree) :
    let fileOptions := if options.currentFile = "" then { options with currentFile := path } else options
    let text := Render.toAsciidoc document title fileOptions
    match (publish FileTree.system { document, title, output := some path, options }).run before with
    | (.ok published, after) =>
      published.artifact = .file path ∧ before.Wrote path text after ∧
        ∀ tree, (publish FileTree.system { document, title, options := fileOptions }).run tree =
          (.ok ⟨.inMemory text, published.mentions⟩, tree)
    | (.error failure, after) => (∃ reason, failure = .file reason) ∧ before.SameTexts after := by
  intro fileOptions text
  have h := publish_ends { document, title, output := some path, options } rfl before
  generalize (publish FileTree.system { document, title, output := some path, options }).run before = published at h ⊢
  obtain ⟨result, after⟩ := published
  obtain ⟨hends, hok⟩ := h
  cases result with
  | error failure => exact hends
  | ok published =>
    obtain rfl := hok published rfl
    exact ⟨rfl, hends, fun tree => rfl⟩

-- Directories that were made on the way stay.
example : (publish FileTree.system { document := {}, output := some "a/b/" }).run {} =
    (.error (.file "a/b/: Is a directory (os error 21)"), ⟨[(["a"], .directory)]⟩) := by
  rfl

end WikiPress
