import WikiPress.Files.System
import WikiPress.Render

/-!
# Publishing

A document is converted in one go, and handed back or written to a file. Links to other pages are made
relative to that file unless the options name another one.
-/

namespace WikiPress

structure Publication where
  document : Node
  title : Option String := none
  output : Option String := none
  options : Options := {}

namespace Publication

/-- The options with the output as the current file, where they name none. -/
def fileOptions (publication : Publication) : Options :=
  let options := publication.options
  match publication.output with
  | some output =>
    if options.currentFile = "" then { options with currentFile := output } else options
  | none => options

/-- The text of the document, and what was met on the way. -/
def rendered (publication : Publication) : String × Render.Memory :=
  (Render.renderDocument { options := publication.fileOptions } publication.title
    publication.document).run {}

def text (publication : Publication) : String :=
  publication.rendered.1

def mentions (publication : Publication) : Dictionary String :=
  publication.rendered.2.mentions

def notices (publication : Publication) : List Notice :=
  publication.rendered.2.notices.reverse

end Publication

inductive Artifact where
  | inMemory (text : String)
  | file (path : String)
  deriving DecidableEq, Repr

/-- What publishing gives: the text or its file, and the ids of the users mentioned. -/
structure Published where
  artifact : Artifact
  mentions : Dictionary String
  deriving DecidableEq, Repr

variable {m : Type → Type} [Monad m]

def writeFile (fs : FileSystem m) (path text : String) : m (Except Failure Unit) := do
  match ← fs.makeDirectories (Path.ofString path).parent.reverse with
  | .error fault => return .error (.file fault.message)
  | .ok () =>
    match ← fs.write path text with
    | .error fault => return .error (.file (path ++ ": " ++ fault.message))
    | .ok () => return .ok ()

def publish (fs : FileSystem m) (publication : Publication) : m (Except Failure Published) := do
  match publication.output with
  | none => return .ok ⟨.inMemory publication.text, publication.mentions⟩
  | some path =>
    match ← writeFile fs path publication.text with
    | .error failure => return .error failure
    | .ok () => return .ok ⟨.file path, publication.mentions⟩

end WikiPress
