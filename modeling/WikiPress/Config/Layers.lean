import WikiPress.Config.Decode
import WikiPress.Files.System

/-!
# Loading configurations

The built-in settings, files laid over them in order, and overrides over all files. Of two overrides of
one key the later counts.
-/

namespace WikiPress.Config

inductive Layer where
  | file (name : String)
  | optional (name : String)
  /-- A single setting, over all files. -/
  | override (key : String) (value : Scalar)
  deriving DecidableEq, Repr

def defaults : Value :=
  .table none
    [("convert", .table none
       [("base_url", .scalar none (.string "")),
        ("default_image_extension", .scalar none (.string "png")),
        ("images_dir", .scalar none (.string "images")),
        ("jira_base_url", .scalar none (.string ""))]),
     ("upload", .table none [("max_image_width", .scalar none (.integer 0))])]

/-! ## Overrides -/

/-- The paths and values of the overrides, or a complaint about a key that is no path. -/
def overrides : List Layer → Except Fault (List (List KeyStep × Scalar))
  | [] => .ok []
  | .override key value :: layers =>
    match keySteps? key with
    | none => .error .pathParse
    | some steps => do
      let rest ← overrides layers
      .ok ((steps, value) :: rest)
  | _ :: layers => overrides layers

/-- Overrides of one path count as one, at the place of the first and with the value of the last. -/
def insertOverride (steps : List KeyStep) (value : Scalar) :
    List (List KeyStep × Scalar) → List (List KeyStep × Scalar)
  | [] => [(steps, value)]
  | (other, old) :: rest =>
    if other = steps then (other, value) :: rest
    else (other, old) :: insertOverride steps value rest

def applyOverrides (list : List (List KeyStep × Scalar)) (root : Value) : Value :=
  let distinct := list.foldl (fun done (steps, value) => insertOverride steps value done) []
  distinct.foldl (fun root (steps, value) => assign (.scalar none value) steps root) root

/-! ## Files -/

variable {m : Type → Type} [Monad m]

/-- The name with the ending of the format after it; a path that ends in no name has none. -/
def endedName? (name : String) : Option String :=
  let steps := Path.ofString name
  match steps.getLast? with
  | some (.name last) => some (Path.toString (steps.parent ++ [.name (last ++ ".toml")]))
  | _ => none

/-- The name of the file that a layer means: its own name, or that with the ending of the format. -/
def findFile (fs : FileSystem m) (name : String) : m (Option String) := do
  if ← fs.isFile name then return some name
  match endedName? name with
  | none => return none
  | some ended => return if ← fs.isFile ended then some ended else none

def shownName (name : String) : String :=
  let steps := Path.ofString name
  Path.toString (if steps.head? = some .here then steps.tail else steps)

/-- Drops the mark of the byte order, which may stand before a text. -/
def dropMark (text : String) : String :=
  match text.toList with
  | '\uFEFF' :: cs => .ofList cs
  | _ => text

def fileEntries (name text : String) : Except Fault (List (String × Value)) :=
  match Toml.ofString (dropMark text) with
  | none => .error .fileParse
  | some v => .ok (ofToml (some (shownName name)) v).entries

def loadFile (fs : FileSystem m) (required : Bool) (name : String) (root : Value) :
    m (Except Fault Value) := do
  let missing : Except Fault Value :=
    if required then
      .error (.foreign ("configuration file " ++ "\"" ++ name ++ "\"" ++ " not found"))
    else .ok root
  match ← findFile fs name with
  | none => return missing
  | some found =>
    match ← fs.read found with
    | .error fault => return if required then .error (.foreign fault.message) else .ok root
    | .ok text => return (fileEntries found text).map fun entries => mergeFile entries root

/-- Lays the files among the layers over a configuration, in order. -/
def loadFiles (fs : FileSystem m) (root : Value) : List Layer → m (Except Fault Value)
  | [] => return .ok root
  | .override _ _ :: layers => loadFiles fs root layers
  | .file name :: layers => do
    match ← loadFile fs true name root with
    | .error fault => return .error fault
    | .ok root => loadFiles fs root layers
  | .optional name :: layers => do
    match ← loadFile fs false name root with
    | .error fault => return .error fault
    | .ok root => loadFiles fs root layers

def load (fs : FileSystem m) (layers : List Layer) : m (Except Fault Settings) := do
  match overrides layers with
  | .error fault => return .error fault
  | .ok list =>
    match ← loadFiles fs defaults layers with
    | .error fault => return .error fault
    | .ok root => return decode (applyOverrides list root)

end WikiPress.Config
