import WikiPress.Cli.Command
import WikiPress.Cli.Report
import WikiPress.Config.Layers
import WikiPress.Publish
import WikiPress.Upload

/-!
# Running commands

The arguments are read first, then the settings, then the inputs of the command; nothing is written
before all of them are read.
-/

namespace WikiPress.Cli

variable {m : Type → Type} [Monad m]

/-! ## Inputs -/

def readSource (fs : FileSystem m) (path : String) : ExceptT String m String := do
  match ← fs.read path with
  | .ok text => return text
  | .error fault => throw ("Error reading file '" ++ path ++ "': " ++ fault.message)

def readInput {α : Type} (fs : FileSystem m) (kind : String) (parse : String → Except String α)
    (path : String) : ExceptT String m α := do
  match parse (← readSource fs path) with
  | .ok a => return a
  | .error reason => throw ("Error parsing " ++ kind ++ " '" ++ path ++ "': " ++ reason)

def readTree (fs : FileSystem m) (path : String) : ExceptT String m Json.Value :=
  readInput fs "document" Json.Value.ofText path

def readDocument (fs : FileSystem m) (path : String) : ExceptT String m Node := do
  match Node.ofValue (← readTree fs path) with
  | .ok document => return document
  | .error cause =>
    throw ("Error reading document '" ++ path ++ "': " ++ (Failure.parse cause.message).message)

/-- Reads an input that need not be named; without a name it is empty. -/
def readNamed {α : Type} (read : String → ExceptT String m (Dictionary α)) :
    Option String → ExceptT String m (Dictionary α)
  | some path => read path
  | none => return []

/-! ## Commands -/

def withInputs {α : Type} (inputs : ExceptT String m α) (command : α → m Report) : m Report := do
  match ← inputs.run with
  | .ok a => command a
  | .error complaint => return .failed complaint

/-- Writes a text to a file, or to the standard output where none is named. -/
def deliver (fs : FileSystem m) (output : Option String) (report : Report) (text : String) :
    m Report := do
  match output with
  | none => return { report with stdout := text }
  | some path =>
    match ← fs.write path text with
    | .ok () => return report
    | .error fault =>
      return { report with
        complaint := some ("Error writing file '" ++ path ++ "': " ++ fault.message) }

def mentionNotices (mentions : Dictionary String) : List Notice :=
  mentions.map fun (name, id) => .mentionedUser name id

/-- Publishes a document, and tells which users it mentions. -/
def convert (fs : FileSystem m) (publication : Publication) : m Report := do
  let notices := publication.notices
  match ← publish fs publication with
  | .error failure =>
    return { notices, complaint := some ("Conversion error: " ++ failure.message) }
  | .ok published =>
    let notices := notices ++ mentionNotices published.mentions
    match published.artifact with
    | .inMemory text => return { stdout := text, notices }
    | .file path => return { notices := notices ++ [.wroteFile path] }

def convertInputs (fs : FileSystem m) (options : Options) (input : String)
    (output title pageMapping attachments : Option String) : ExceptT String m Publication := do
  let document ← readDocument fs input
  let pages ← readNamed (readInput fs "page mapping" Page.readMapping) pageMapping
  let fileNames ← readNamed (readInput fs "mapping" readNames) attachments
  return { document, title, output, options := { options with pages, fileNames } }

def substituteInputs (fs : FileSystem m) (input mapping : String) :
    ExceptT String m (Json.Value × Dictionary String) := do
  let tree ← readTree fs input
  let ids ← readInput fs "mapping" readNames mapping
  return (tree, ids)

/-- The settings with those that were given as arguments in their place. -/
def overlay (settings : Settings) (baseUrl trackerUrl imagesDir : Option String) : Settings :=
  { settings with
    baseUrl := baseUrl.getD settings.baseUrl
    trackerUrl := trackerUrl.getD settings.trackerUrl
    imagesDir := imagesDir.getD settings.imagesDir }

def pageLines (document : Node) (baseUrl : String) : String :=
  String.join ((Link.linkedPages document baseUrl).map (· ++ "\n"))

def runCommand (fs : FileSystem m) (settings : Settings) : Command → m Report
  | .convert input output title pageMapping attachments baseUrl trackerUrl imagesDir =>
    let options := (overlay settings baseUrl trackerUrl imagesDir).options
    withInputs (convertInputs fs options input output title pageMapping attachments) (convert fs)
  | .substituteIds input mapping output =>
    withInputs (substituteInputs fs input mapping) fun (tree, ids) =>
      deliver fs output {} (Upload.substituteIds ids tree).pretty
  | .clampWidths input maxWidth output =>
    let maxWidth := maxWidth <|> settings.clampWidth
    let notices := if maxWidth.isNone then [.noWidthConfigured] else []
    withInputs (readTree fs input) fun tree =>
      deliver fs output { notices } (Upload.clampWidths maxWidth tree).pretty
  | .linkedPages input baseUrl =>
    let baseUrl := baseUrl.getD settings.baseUrl
    if baseUrl = "" then
      return .failed "Error: a wiki base URL is required (--base-url or convert.base_url)"
    else
      withInputs (readDocument fs input) fun document =>
        return { stdout := pageLines document baseUrl }

/-! ## The program -/

def programName : String := "adf2adoc"

def versionLine : String := programName ++ " 0.1.0\n"

/-- The file of settings that is read where it is there. -/
def settingsFile : String := "adf.toml"

/-- The layers of the settings; a file that was named for them must be there. -/
def settingsLayers (config : Option String) : List Config.Layer :=
  .optional settingsFile :: (config.map Config.Layer.file).toList

def invoke (fs : FileSystem m) (invocation : Invocation) : m Report := do
  match ← Config.load fs (settingsLayers invocation.config) with
  | .ok settings => runCommand fs settings invocation.command
  | .error _ => return .failed "Failed to load configuration"

/-- A misuse is told by the status, whatever else there is to say. -/
def endingOutcome (warnings : String) : Ending → Outcome
  | .help => { stderr := warnings, explained := true }
  | .version => { stdout := versionLine, stderr := warnings }
  | .misuse => { status := 2, explained := true }

/-- Runs the program with its arguments. Notices are selected by a filter, which is given as text. -/
def run (fs : FileSystem m) (selection : String) (arguments : List String) : m Outcome := do
  let (filter, complaints) := Notice.Filter.ofString selection
  let warnings := warningLines complaints
  match Invocation.ofArguments arguments with
  | .error ending => return endingOutcome warnings ending
  | .ok invocation =>
    let outcome := (← invoke fs invocation).outcome filter
    return { outcome with stderr := warnings ++ outcome.stderr }

end WikiPress.Cli
