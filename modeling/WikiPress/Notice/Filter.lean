import WikiPress.Notice
import WikiPress.Text.Blank
import WikiPress.Text.Search

/-!
# Filters of notices

Which notices are shown. A filter is written as rules such as `topic=level`, parted by commas. Of the
rules whose topic a notice's topic begins with, the one with the longest topic decides. After a slash
may follow a text that a notice must contain.
-/

namespace WikiPress

namespace Level

def ofName? (name : String) : Option Level :=
  [.error, .warn, .info, .debug, .trace].find? fun level =>
    level.name.toList = name.toList.map Char.toUpper

end Level

namespace Notice

/-- Notices of these topics are shown up to a rank of detail. -/
structure Rule where
  topic : String
  detail : Nat
  deriving DecidableEq, Repr

/-- Without rules no notice is shown: there is none of the level of errors. -/
structure Filter where
  rules : List Rule := []
  fragment : String := ""
  deriving DecidableEq, Repr

namespace Rule

def covers (rule : Rule) (notice : Notice) : Bool :=
  rule.topic.toList.isPrefixOf notice.topic.toList

/-- Of two rules that cover a notice, the one that decides; of equals the later one. -/
def stronger (old : Option Rule) (new : Rule) : Option Rule :=
  match old with
  | some rule => if new.topic.length < rule.topic.length then some rule else some new
  | none => some new

def detailOf? (word : List Char) : Option Nat :=
  if word.map Char.toUpper = ['O', 'F', 'F'] then some 0
  else (Level.ofName? (.ofList word)).map Level.rank

/-- Reads a rule: a level for all topics, a topic for all levels, or both. -/
def ofChars (cs : List Char) : Except String Rule :=
  let everything := Level.trace.rank
  match Text.splitAt '=' cs with
  | [word] =>
    match detailOf? word with
    | some detail => .ok ⟨"", detail⟩
    | none => .ok ⟨.ofList word, everything⟩
  | [topic, word] =>
    let word := Text.dropBlankEnd (Text.dropBlankStart word)
    if word = [] then .ok ⟨.ofList topic, everything⟩
    else
      match detailOf? word with
      | some detail => .ok ⟨.ofList topic, detail⟩
      | none => .error ("invalid logging spec '" ++ .ofList word ++ "'")
  | _ => .error ("invalid logging spec '" ++ .ofList cs ++ "'")

end Rule

namespace Filter

/-- Reads rules parted by commas, and collects the complaints about those that are none. -/
def readRules (cs : List Char) : List Rule × List String :=
  let parts := (Text.splitAt ',' cs).map fun part => Text.dropBlankEnd (Text.dropBlankStart part)
  let results := (parts.filter (!·.isEmpty)).map Rule.ofChars
  (results.filterMap Except.toOption,
    results.filterMap fun
      | .ok _ => none
      | .error complaint => some complaint)

/-- Reads a filter, and collects the complaints about its parts. -/
def ofString (s : String) : Filter × List String :=
  match Text.splitAt '/' s.toList with
  | [rules] =>
    let (rules, complaints) := readRules rules
    (⟨rules, ""⟩, complaints)
  | [rules, fragment] =>
    let (rules, complaints) := readRules rules
    (⟨rules, .ofList fragment⟩, complaints)
  | _ => ({}, ["invalid logging spec '" ++ s ++ "' (too many '/'s)"])

def ruleFor? (filter : Filter) (notice : Notice) : Option Rule :=
  (filter.rules.filter (·.covers notice)).foldl Rule.stronger none

def shows (filter : Filter) (notice : Notice) : Bool :=
  (match filter.ruleFor? notice with
   | some rule => notice.level.rank ≤ rule.detail
   | none => false) &&
  Text.contains notice.text filter.fragment

end Filter

/-! ## Lines -/

/-- A notice as a line. Further lines of its text are indented. -/
def line (notice : Notice) : String :=
  let level := notice.level.name
  let blanks := String.ofList (List.replicate (5 - level.length) ' ')
  let text := Text.replaceChar '\n' ['\n', ' ', ' ', ' ', ' '] notice.text.toList
  "[" ++ level ++ blanks ++ " " ++ notice.topic ++ "] " ++ .ofList text ++ "\n"

def shownLines (filter : Filter) (notices : List Notice) : String :=
  String.join ((notices.filter filter.shows).map line)

end Notice

end WikiPress
