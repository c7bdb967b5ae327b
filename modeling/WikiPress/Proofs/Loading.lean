import WikiPress.Config.Layers
import WikiPress.Files.Tree
import WikiPress.Proofs.Steps

/-!
# Loading from a file tree

Loading a configuration looks at files and changes none. What a layer gives can so be told from the tree alone: the text
of its file, if there is one, is laid over what the layers before it gave.
-/

namespace WikiPress.Config

/-- The file that a layer means, under its own name or under that with an ending, and its text. -/
def textFor? (tree : FileTree) (name : String) : Option (String × String) := do
  let found ← (name :: (endedName? name).toList).find? tree.isFile
  match tree.read found with
  | .ok text => some (found, text)
  | .error _ => none

/-- Lays the text of a file over a configuration. -/
def layText (root : Value) (file : String × String) : Except Fault Value :=
  (fileEntries file.1 file.2).map fun entries => mergeFile entries root

def layFile (tree : FileTree) (required : Bool) (name : String) (root : Value) : Except Fault Value :=
  match textFor? tree name with
  | some file => layText root file
  | none =>
    if required then .error (.foreign ("configuration file " ++ "\"" ++ name ++ "\"" ++ " not found")) else .ok root

/-- What a layer makes of a configuration. An override waits until all files are laid. -/
def layOver (tree : FileTree) (root : Value) : Layer → Except Fault Value
  | .override _ _ => .ok root
  | .file name => layFile tree true name root
  | .optional name => layFile tree false name root

section
variable (tree : FileTree)

theorem read_of_isFile {name : String} (h : tree.isFile name = true) : ∃ text, tree.read name = .ok text := by
  unfold FileTree.isFile at h
  unfold FileTree.read
  cases he : tree.entry name with
  | error fault => simp [he] at h
  | ok entry =>
    cases entry with
    | file text => exact ⟨text, rfl⟩
    | directory => simp [he] at h

theorem run_findFile (name : String) : (findFile FileTree.system name).run tree =
    ((name :: (endedName? name).toList).find? tree.isFile, tree) := by
  have hrun (found : String) : (FileTree.system.isFile found).run tree = (tree.isFile found, tree) := rfl
  unfold findFile
  rw [run_bind (hrun name), List.find?_cons]
  cases tree.isFile name with
  | true => rfl
  | false =>
    simp only [Bool.false_eq_true, if_false]
    cases endedName? name with
    | none => rfl
    | some ended =>
      simp only [run_bind (hrun ended), Option.toList, List.find?_cons, List.find?_nil]
      cases tree.isFile ended <;> rfl

theorem run_loadFile (required : Bool) (name : String) (root : Value) :
    (loadFile FileTree.system required name root).run tree = (layFile tree required name root, tree) := by
  unfold loadFile layFile textFor?
  rw [run_bind (run_findFile tree name)]
  cases hf : (name :: (endedName? name).toList).find? tree.isFile with
  | none => rfl
  | some found =>
    obtain ⟨text, htext⟩ := read_of_isFile tree (List.find?_some hf)
    have hread : (FileTree.system.read found).run tree = (.ok text, tree) := congrArg (·, tree) htext
    simp only [run_bind hread, Option.bind_eq_bind, Option.bind_some, htext]
    rfl

theorem run_loadFiles : ∀ (layers : List Layer) (root : Value),
    (loadFiles FileTree.system root layers).run tree = (layers.foldlM (layOver tree) root, tree)
  | [], _ => rfl
  | .override _ _ :: layers, root => run_loadFiles layers root
  | .file name :: layers, root => by
    rw [loadFiles, run_bind (run_loadFile tree true name root), List.foldlM_cons, layOver]
    cases layFile tree true name root with
    | error fault => rfl
    | ok root => exact run_loadFiles layers root
  | .optional name :: layers, root => by
    rw [loadFiles, run_bind (run_loadFile tree false name root), List.foldlM_cons, layOver]
    cases layFile tree false name root with
    | error fault => rfl
    | ok root => exact run_loadFiles layers root

/-- Loading depends on the files that it finds, and leaves them as they are. -/
theorem run_load (layers : List Layer) :
    (load FileTree.system layers).run tree =
      ((do
        let list ← overrides layers
        let root ← layers.foldlM (layOver tree) defaults
        decode (applyOverrides list root)), tree) := by
  unfold load
  cases overrides layers with
  | error fault => rfl
  | ok list =>
    rw [run_bind (run_loadFiles tree layers defaults)]
    cases layers.foldlM (layOver tree) defaults <;> rfl

end

end WikiPress.Config
