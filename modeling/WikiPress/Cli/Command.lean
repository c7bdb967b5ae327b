import WikiPress.Cli.Arguments

/-!
# Commands

What the command line asks for. Each command knows options of its own, and takes one input. Every
option may be given once, but the configuration may be named before the command and after it; then
the one after it counts.
-/

namespace WikiPress.Cli

inductive Verb where
  | convert
  | substituteIds
  | clampWidths
  | linkedPages
  deriving DecidableEq, Repr

namespace Verb

def name : Verb → String
  | .convert => "convert"
  | .substituteIds => "substitute-ids"
  | .clampWidths => "clamp-widths"
  | .linkedPages => "linked-pages"

def all : List Verb :=
  [.convert, .substituteIds, .clampWidths, .linkedPages]

def ofName? (name : String) : Option Verb :=
  all.find? (·.name = name)

def flags : Verb → List Flag
  | .convert =>
    [.config, .output, .title, .pageMapping, .attachments, .baseUrl, .trackerUrl, .imagesDir]
  | .substituteIds => [.config, .output, .mapping]
  | .clampWidths => [.config, .output, .maxWidth]
  | .linkedPages => [.config, .baseUrl]

end Verb

inductive Ending where
  | help
  | version
  | misuse
  deriving DecidableEq, Repr

structure Given where
  options : List (Flag × String) := []
  input : Option String := none
  deriving DecidableEq, Repr

def Given.get? (given : Given) (flag : Flag) : Option String :=
  given.options.lookup flag

/-- Adds an option; none may be given twice. -/
def Given.add (flags : List Flag) (flag : Flag) (value : Option String) (given : Given) :
    Except Ending Given :=
  match value with
  | none => .error .misuse
  | some value =>
    if flag ∈ flags ∧ given.get? flag = none ∧ flag.accepts value then
      .ok { given with options := (flag, value) :: given.options }
    else .error .misuse

/-- Adds the input; there is only one. -/
def Given.addInput (s : String) (given : Given) : Except Ending Given :=
  match given.input with
  | none => .ok { given with input := some s }
  | some _ => .error .misuse

def readGiven (flags : List Flag) : List Item → Given → Except Ending Given
  | [], given => .ok given
  | .option flag value :: items, given => given.add flags flag value >>= readGiven flags items
  | .word s :: items, given => given.addInput s >>= readGiven flags items
  | .wordsOnly :: items, given => readGiven flags items given
  | .help :: _, _ => .error .help
  | .version :: _, _ => .error .misuse
  | .unknown :: _, _ => .error .misuse

inductive Command where
  | convert (input : String)
      (output title pageMapping attachments baseUrl trackerUrl imagesDir : Option String)
  | substituteIds (input mapping : String) (output : Option String)
  | clampWidths (input : String) (maxWidth : Option Nat) (output : Option String)
  | linkedPages (input : String) (baseUrl : Option String)
  deriving DecidableEq, Repr

namespace Command

/-- The command for what was given; nothing that it needs may be missing. -/
def ofGiven? (verb : Verb) (given : Given) : Option Command := do
  let input ← given.input
  match verb with
  | .convert =>
    some (.convert input (given.get? .output) (given.get? .title) (given.get? .pageMapping)
      (given.get? .attachments) (given.get? .baseUrl) (given.get? .trackerUrl)
      (given.get? .imagesDir))
  | .substituteIds => do
    let mapping ← given.get? .mapping
    some (.substituteIds input mapping (given.get? .output))
  | .clampWidths =>
    some (.clampWidths input ((given.get? .maxWidth).bind Text.unsigned64?) (given.get? .output))
  | .linkedPages => some (.linkedPages input (given.get? .baseUrl))

def output : Command → Option String
  | .convert _ output .. => output
  | .substituteIds _ _ output => output
  | .clampWidths _ _ output => output
  | .linkedPages .. => none

end Command

structure Invocation where
  config : Option String
  command : Command
  deriving DecidableEq, Repr

namespace Invocation

/-- What `help` asks for: the program, one of its commands, or `help` itself. -/
def endingOfHelp : List Item → Ending
  | [] => .help
  | [.word name] => if name = "help" ∨ (Verb.ofName? name).isSome then .help else .misuse
  | _ => .misuse

def ofVerb (verb : Verb) (outer : Given) (items : List Item) : Except Ending Invocation := do
  let given ← readGiven verb.flags items {}
  match Command.ofGiven? verb given with
  | some command => .ok ⟨given.get? .config <|> outer.get? .config, command⟩
  | none => .error .misuse

/-- Reads the items before the name of a command, and then the command. -/
def ofItems : List Item → Given → Except Ending Invocation
  | .option flag value :: items, outer => outer.add [.config] flag value >>= ofItems items
  | .word name :: items, outer =>
    match Verb.ofName? name with
    | some verb => ofVerb verb outer items
    | none => .error (if name = "help" then endingOfHelp items else .misuse)
  | .help :: _, _ => .error .help
  | .version :: _, _ => .error .version
  | _, _ => .error .misuse

def ofArguments (arguments : List String) : Except Ending Invocation :=
  ofItems (items arguments) {}

end Invocation

end WikiPress.Cli
