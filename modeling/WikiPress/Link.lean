import WikiPress.Options
import WikiPress.PageId
import WikiPress.Path

/-!
# Links

Where a link points to, and the markup for it. A link is, in this order, a reference to an anchor that
was already met, a reference to a page that is converted too, an issue, or an external link.
-/

namespace WikiPress

namespace Link

inductive Target where
  | anchor (id : String)
  | page (path : String) (fragment : Option String)
  | issue (key : String)
  | external (href : String)
  deriving DecidableEq, Repr

/-! ## Issues -/

def isUpper (c : Char) : Bool :=
  'A' ≤ c && c ≤ 'Z'

/-- Upper-case letters, a hyphen and all digits that follow. -/
def issueKeyAt (cs : List Char) : Option (List Char) :=
  let letters := cs.takeWhile isUpper
  match cs.dropWhile isUpper with
  | '-' :: rest =>
    let digits := rest.takeWhile Text.isDigit
    if letters = [] ∨ digits = [] then none else some (letters ++ '-' :: digits)
  | _ => none

/-- The key after the first `/browse/` that a key follows. -/
def issueKeyIn : List Char → Option (List Char)
  | [] => none
  | c :: cs =>
    match (Text.afterStart? "/browse/".toList (c :: cs)).bind issueKeyAt with
    | some key => some key
    | none => issueKeyIn cs

def issueKey? (options : Options) (href : String) : Option String :=
  match options.trackerUrl with
  | none => none
  | some url =>
    if url ≠ "" ∧ Text.contains href url then (issueKeyIn href.toList).map String.ofList else none

/-! ## Pages -/

/-- The path to the page that a URL names, if that page is written to a file. -/
def pagePath? (options : Options) (url : String) : Option String := do
  let id ← PageId.ofString url
  let page ← options.pages.lookup id
  let target ← page.path
  some (relativePath target options.currentFile)

def isWikiUrl (options : Options) (url : String) : Bool :=
  options.baseUrl ≠ "" && Text.contains url options.baseUrl

/-! ## Classification -/

def anchor? (anchors : List String) (href : String) : Option String :=
  match href.toList with
  | '#' :: id => if anchors.contains (.ofList id) then some (.ofList id) else none
  | _ => none

/-- Has a link a fragment, and does its URL name no page that is written? -/
def isUnmappedPage (options : Options) (anchors : List String) (href : String) : Bool :=
  let (url, fragment) := Text.splitFirst '#' href
  (anchor? anchors href).isNone && fragment.isSome && isWikiUrl options url &&
    (pagePath? options url).isNone

def classify (options : Options) (anchors : List String) (href : String) : Target :=
  match anchor? anchors href with
  | some id => .anchor id
  | none =>
    let (url, fragment) := Text.splitFirst '#' href
    let page := if isWikiUrl options url then pagePath? options url else none
    match page with
    | some path => .page path fragment
    | none =>
      if fragment.isSome ∧ isWikiUrl options url then .external href
      else
        match issueKey? options href with
        | some key => .issue key
        | none => .external href

/-! ## Markup -/

def Target.markup (text : String) : Target → String
  | .anchor id => "<<" ++ id ++ "," ++ text ++ ">>"
  | .page path none => "xref:" ++ path ++ "[" ++ text ++ "]"
  | .page path (some fragment) => "xref:" ++ path ++ "#" ++ fragment ++ "[" ++ text ++ "]"
  | .issue key => "jira:" ++ key ++ "[]"
  | .external href => "link:" ++ href ++ "[" ++ text ++ "]"

/-- What stands between two of a character that occurs nowhere else, if that is not nothing. -/
def innerOf? (wrapper : Char) (cs : List Char) : Option (List Char) :=
  match cs with
  | [] => none
  | c :: rest =>
    let inner := rest.dropLast
    if c = wrapper ∧ rest.getLast? = some wrapper ∧ inner ≠ [] ∧ !inner.contains wrapper then
      some inner
    else none

/-- The character that wraps a whole text, and the text in it. -/
def wrapper? (text : String) : Option (Char × String) :=
  match innerOf? '*' text.toList with
  | some inner => some ('*', .ofList inner)
  | none => (innerOf? '_' text.toList).map fun inner => ('_', .ofList inner)

/-- The markup for a link around formatted text. It goes inside a wrapper of the whole text, and an
issue replaces the text. -/
def markup (target : Target) (text : String) : String :=
  match target, wrapper? text with
  | .issue _, _ | _, none => target.markup text
  | _, some (wrapper, inner) =>
    wrapper.toString ++ target.markup inner ++ wrapper.toString

/-! ## Links of a document -/

def linkedPage? (baseUrl url : String) : Option String :=
  if Text.contains url baseUrl then PageId.ofString url else none

/-- The URLs that a node itself points to: those of its link marks, and that of a card. -/
def urlsOf (node : Node) : List String :=
  (node.marks.filter (·.kind = .link)).filterMap Mark.href? ++
    (if node.kind = .inlineCard then (node.text? "url").toList else [])

mutual

def urlsBelow : Node → List String
  | ⟨type, attrs, content, marks, text⟩ =>
    urlsOf ⟨type, attrs, content, marks, text⟩ ++ urlsBelowAll content

def urlsBelowAll : List Node → List String
  | [] => []
  | node :: nodes => urlsBelow node ++ urlsBelowAll nodes

end

/-- The ids of all pages of the wiki that a document points to, in order and without repetition. -/
def linkedPages (node : Node) (baseUrl : String) : List String :=
  if baseUrl = "" then []
  else
    let ids := (urlsBelow node).filterMap (linkedPage? baseUrl)
    (Dictionary.ofPairs (ids.map fun id => (id, ()))).map Prod.fst

end Link

end WikiPress
