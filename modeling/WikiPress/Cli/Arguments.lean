import WikiPress.Text.Digits
import WikiPress.Text.Search

/-!
# Arguments

The arguments of the command line as items: options with their values, plain words, and requests for
help. How an argument is written tells what it is, so items are read without knowing the command.
-/

namespace WikiPress.Cli

inductive Flag where
  | config
  | output
  | title
  | pageMapping
  | attachments
  | baseUrl
  | trackerUrl
  | imagesDir
  | mapping
  | maxWidth
  deriving DecidableEq, Repr

namespace Flag

def name : Flag → String
  | .config => "config"
  | .output => "output"
  | .title => "title"
  | .pageMapping => "page-mapping"
  | .attachments => "attachments"
  | .baseUrl => "base-url"
  | .trackerUrl => "jira-base-url"
  | .imagesDir => "images-dir"
  | .mapping => "mapping"
  | .maxWidth => "max-width"

def all : List Flag :=
  [.config, .output, .title, .pageMapping, .attachments, .baseUrl, .trackerUrl, .imagesDir, .mapping,
    .maxWidth]

def ofName? (name : String) : Option Flag :=
  all.find? (·.name = name)

def accepts : Flag → String → Bool
  | .maxWidth, value => (Text.unsigned64? value).isSome
  | _, _ => true

end Flag

inductive Item where
  /-- An option; its value may be missing. -/
  | option (flag : Flag) (value : Option String)
  | word (s : String)
  | wordsOnly
  | help
  | version
  | unknown
  deriving DecidableEq, Repr

namespace Item

/-- The item for `--name` or `--name=value`. -/
def ofLong (name : String) (value : Option String) : Item :=
  match Flag.ofName? name, value with
  | some flag, value => .option flag value
  | none, some _ => .unknown
  | none, none =>
    if name = "help" then .help
    else if name = "version" then .version
    else .unknown

/-- The item for letters after a hyphen. The first letter tells what it is, for an option takes all
letters behind it as its value. -/
def ofShort : List Char → Item
  | ['o'] => .option .output none
  | 'o' :: '=' :: value => .option .output (some (.ofList value))
  | 'o' :: value => .option .output (some (.ofList value))
  | 'h' :: _ => .help
  | 'V' :: _ => .version
  | _ => .unknown

def ofArgument (argument : String) : Item :=
  match argument.toList with
  | ['-', '-'] => .wordsOnly
  | '-' :: '-' :: cs =>
    let (name, value) := Text.splitFirst '=' (.ofList cs)
    ofLong name value
  | '-' :: c :: cs => ofShort (c :: cs)
  | _ => .word argument

end Item

/-- Reads arguments as items. An option without a value takes the next argument as its value if that is
a word. -/
def items : List String → List Item
  | [] => []
  | [argument] => [.ofArgument argument]
  | argument :: next :: rest =>
    match Item.ofArgument argument with
    | .wordsOnly => .wordsOnly :: (next :: rest).map .word
    | .option flag none =>
      if Item.ofArgument next = .word next then .option flag (some next) :: items rest
      else .option flag none :: items (next :: rest)
    | item => item :: items (next :: rest)

end WikiPress.Cli
