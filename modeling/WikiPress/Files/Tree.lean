import WikiPress.Files.System
import WikiPress.Text.Utf8

/-!
# File trees

A file system as a value: files and directories by their names from the top. The top is where relative
names start, and its own parent.
-/

namespace WikiPress

inductive Entry where
  | file (text : String)
  | directory
  deriving DecidableEq, Repr

/-- Entries by the names on the way to them; the top itself is no entry. -/
structure FileTree where
  entries : List (List String × Entry) := []
  deriving DecidableEq, Repr

namespace FileTree

/-! ## Entries -/

def find? (tree : FileTree) (names : List String) : Option Entry :=
  if names = [] then some .directory else tree.entries.lookup names

def set (tree : FileTree) (names : List String) (entry : Entry) : FileTree :=
  let rec go : List (List String × Entry) → List (List String × Entry)
    | [] => [(names, entry)]
    | (other, old) :: rest =>
      if other = names then (names, entry) :: rest else (other, old) :: go rest
  ⟨go tree.entries⟩

/-! ## Finding the way -/

def longestName : Nat := 255

def pathLimit : Nat := 4096

def byteLength (cs : List Char) : Nat :=
  (Text.utf8Bytes cs).length

/-- Follows parts that must all be directories, from a directory that is there. -/
def walk (tree : FileTree) (here : List String) :
    List (List Char) → Except FileFault (List String)
  | [] => .ok here
  | part :: parts =>
    if part = [] ∨ part = ['.'] then walk tree here parts
    else if part = ['.', '.'] then walk tree here.dropLast parts
    else if longestName < byteLength part then .error .nameTooLong
    else
      let next := here ++ [String.ofList part]
      match tree.find? next with
      | none => .error .noEntry
      | some (.file _) => .error .notDirectory
      | some .directory => walk tree next parts

/-- A path, cut into the directory that it lies in and its last part. -/
structure Spot where
  directory : List String
  last : List Char

/-- Is a part no name of its own? -/
def isDots (part : List Char) : Bool :=
  part = [] || part = ['.'] || part = ['.', '.']

/-- The parts of a path without those that slashes at its end leave. -/
def dropEmptyEnd (parts : List (List Char)) : List (List Char) :=
  (parts.reverse.dropWhile List.isEmpty).reverse

def directoryOf (tree : FileTree) (cs : List Char) (parts : List (List Char)) :
    Except FileFault (List String) := do
  if cs.contains '\x00' then .error .nulInName
  if cs = [] then .error .noEntry
  if pathLimit ≤ byteLength cs then .error .nameTooLong
  tree.walk [] parts.dropLast

def spotOf (tree : FileTree) (cs : List Char) (parts : List (List Char)) :
    Except FileFault Spot := do
  let directory ← tree.directoryOf cs parts
  let last := parts.getLast?.getD []
  if longestName < byteLength last then .error .nameTooLong
  .ok ⟨directory, last⟩

def spot (tree : FileTree) (name : String) : Except FileFault Spot :=
  tree.spotOf name.toList (Text.splitAt '/' name.toList)

def entry (tree : FileTree) (name : String) : Except FileFault Entry := do
  let spot ← tree.spot name
  if isDots spot.last then .ok .directory
  else
    match tree.find? (spot.directory ++ [.ofList spot.last]) with
    | none => .error .noEntry
    | some entry => .ok entry

/-! ## Operations -/

def read (tree : FileTree) (name : String) : Except FileFault String := do
  match ← tree.entry name with
  | .file text => .ok text
  | .directory => .error .isDirectory

/-- The names under which a file would be written, when it can be. A slash at the end tells that a
directory is meant, whether it is there or not. -/
def target (tree : FileTree) (name : String) : Except FileFault (List String) := do
  let parts := Text.splitAt '/' name.toList
  if parts ≠ [[]] ∧ parts.getLast? = some [] then
    let _ ← tree.directoryOf name.toList (dropEmptyEnd parts)
    .error .isDirectory
  let spot ← tree.spot name
  if isDots spot.last then .error .isDirectory
  let names := spot.directory ++ [.ofList spot.last]
  if tree.find? names = some .directory then .error .isDirectory
  .ok names

def write (tree : FileTree) (name text : String) : Except FileFault FileTree := do
  let names ← tree.target name
  .ok (tree.set names (.file text))

def isFile (tree : FileTree) (name : String) : Bool :=
  match tree.entry name with
  | .ok (.file _) => true
  | _ => false

def isDirectory (tree : FileTree) (name : String) : Bool :=
  match tree.entry name with
  | .ok .directory => true
  | _ => false

/-- Slashes at the end of the name of a directory do not count. -/
def makeDirectory (tree : FileTree) (name : String) : Except FileFault FileTree := do
  let spot ← tree.spotOf name.toList (dropEmptyEnd (Text.splitAt '/' name.toList))
  if isDots spot.last then .error .alreadyThere
  let names := spot.directory ++ [.ofList spot.last]
  match tree.find? names with
  | some _ => .error .alreadyThere
  | none => .ok (tree.set names .directory)

/-! ## As a file system -/

/-- Keeps a tree unless an operation gives a new one. -/
def update (result : FileTree → Except FileFault FileTree) :
    StateM FileTree (Except FileFault Unit) :=
  modifyGet fun tree =>
    match result tree with
    | .ok tree => (.ok (), tree)
    | .error fault => (.error fault, tree)

def system : FileSystem (StateM FileTree) where
  read name := return (← get).read name
  write name text := update (·.write name text)
  isFile name := return (← get).isFile name
  isDirectory name := return (← get).isDirectory name
  makeDirectory name := update (·.makeDirectory name)

/-! ## Listings -/

def addParents (tree : FileTree) (names : List String) : FileTree :=
  (List.range names.length).foldl (fun tree n =>
    let outer := names.take n
    if (tree.find? outer).isSome then tree else tree.set outer .directory) tree

/-- A tree of files by their paths; a path that ends in a slash is a directory. -/
def ofFiles (files : List (String × String)) : FileTree :=
  files.foldl (fun tree (path, text) =>
    let parts := Text.splitAt '/' path.toList
    let names := (parts.filter (!·.isEmpty)).map String.ofList
    let isDirectory := parts.getLast? = some []
    if names.isEmpty then tree
    else (tree.addParents names).set names (if isDirectory then .directory else .file text)) {}

def files (tree : FileTree) : List (String × String) :=
  tree.entries.filterMap fun (names, entry) =>
    match entry with
    | .file text => some (String.intercalate "/" names, text)
    | .directory => none

/-- The files that are new or other than before. -/
def changes (before after : FileTree) : List (String × String) :=
  after.files.filter fun (path, text) => before.files.lookup path ≠ some text

end FileTree

end WikiPress
