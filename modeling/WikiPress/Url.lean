import WikiPress.Url.Host

/-!
# URLs

The path segments and the query of a URL, by the rules of browsers: blanks around a URL and line ends
in it do not count, a backslash is a slash on the web, dots in a path are resolved, and a URL without a
scheme is relative to `http://localhost/`.
-/

namespace WikiPress

/-- The parts of a URL that name a page. A path that starts with no slash has no segments. -/
structure Url where
  segments : Option (List (List Char))
  query : Option (List Char)
  deriving DecidableEq, Repr

namespace Url

/-- Schemes with rules of their own: those of the web, files, and all others. -/
inductive Scheme where
  | web
  | file
  | other
  deriving DecidableEq, Repr

def Scheme.isSpecial : Scheme → Bool
  | .other => false
  | _ => true

def Scheme.ofName (name : List Char) : Scheme :=
  if ["http", "https", "ws", "wss", "ftp"].contains (String.ofList name) then .web
  else if name = "file".toList then .file
  else .other

def isAlpha (c : Char) : Bool :=
  ('a' ≤ c && c ≤ 'z') || ('A' ≤ c && c ≤ 'Z')

def isSchemeChar (c : Char) : Bool :=
  isAlpha c || Text.isDigit c || c = '+' || c = '-' || c = '.'

def splitScheme (cs : List Char) : Option (List Char × List Char) :=
  match cs, cs.dropWhile isSchemeChar with
  | c :: _, ':' :: rest =>
    if isAlpha c then some ((cs.takeWhile isSchemeChar).map Char.toLower, rest) else none
  | _, _ => none

/-! ## Cleaning and cutting -/

/-- Blanks and controls around a URL, and tabs and line ends anywhere, do not count. -/
def clean (cs : List Char) : List Char :=
  let outer (c : Char) : Bool := c.toNat ≤ 0x20
  let trimmed := ((cs.dropWhile outer).reverse.dropWhile outer).reverse
  trimmed.filter fun c => c != '\t' && c != '\n' && c != '\r'

/-- A URL before its parts are understood: what stands before the query, the query, and whether a
query or a fragment follows. -/
structure Cut where
  body : List Char
  query : Option (List Char)
  followed : Bool

def cut (cs : List Char) : Cut :=
  let (unmarked, fragment) :=
    match Text.cutAt '#' cs with
    | none => (cs, false)
    | some (before, _) => (before, true)
  match Text.cutAt '?' unmarked with
  | none => ⟨unmarked, none, fragment⟩
  | some (before, query) => ⟨before, some query, true⟩

/-! ## Paths -/

def isSlash (scheme : Scheme) (c : Char) : Bool :=
  c = '/' || (scheme.isSpecial && c = '\\')

def isDoubleDot (segment : List Char) : Bool :=
  ["..", ".%2e", "%2e.", "%2e%2e"].contains (String.ofList (segment.map Char.toLower))

def isSingleDot (segment : List Char) : Bool :=
  [".", "%2e"].contains (String.ofList (segment.map Char.toLower))

/-- The letter of a disk, with its colon or the bar that stands for one. -/
def isDrive (segment : List Char) : Bool :=
  match segment with
  | [c, d] => isAlpha c && (d = ':' || d = '|')
  | _ => false

/-- Takes back the last segment; the letter of a disk stays. -/
def shorten (scheme : Scheme) (done : List (List Char)) : List (List Char) :=
  if scheme = .file ∧ (done.getLast?.map isDrive) = some true then done else done.dropLast

/-- Resolves the dots among segments; dots at the end leave an empty segment. -/
def resolveDots (scheme : Scheme) (done : List (List Char)) : List (List Char) → List (List Char)
  | [] => done
  | segment :: rest =>
    let ending := if rest.isEmpty then [[]] else []
    if isDoubleDot segment then resolveDots scheme (shorten scheme done ++ ending) rest
    else if isSingleDot segment then resolveDots scheme (done ++ ending) rest
    else resolveDots scheme (done ++ [segment]) rest

def pathSegments (scheme : Scheme) (cs : List Char) : List (List Char) :=
  let slashed := cs.map fun c => if isSlash scheme c then '/' else c
  let segments := resolveDots scheme [] (Text.splitAt '/' slashed)
  if scheme = .file then
    match segments.dropWhile List.isEmpty with
    | [] => [[]]
    | segments => segments
  else segments

/-- The path after a host. Outside the web and files it may be absent. -/
def pathAfterHost (scheme : Scheme) (cs : List Char) : Option (List (List Char)) :=
  match cs with
  | [] => if scheme.isSpecial then some [[]] else none
  | c :: rest => some (pathSegments scheme (if isSlash scheme c then rest else cs))

/-! ## Authorities -/

def splitCredentials (cs : List Char) : Option (List Char × List Char) :=
  match Text.cutAt '@' cs.reverse with
  | none => none
  | some (after, before) => some (before.reverse, after.reverse)

/-- Splits a host from what follows it: a colon outside brackets ends it. -/
def splitHost (inBrackets : Bool) : List Char → List Char × List Char
  | [] => ([], [])
  | c :: cs =>
    if c = ':' ∧ !inBrackets then ([], c :: cs)
    else
      let (host, rest) := splitHost (if c = '[' then true else if c = ']' then false else inBrackets) cs
      (c :: host, rest)

def isNumber16 (cs : List Char) : Bool :=
  cs.all Text.isDigit && Text.decimalValue cs ≤ 65535

/-- Checks an authority and gives what follows it; `followed` tells that something does. -/
def afterAuthority (scheme : Scheme) (followed : Bool) (cs : List Char) : Option (List Char) :=
  let authority := cs.takeWhile fun c => !isSlash scheme c
  let rest := cs.dropWhile fun c => !isSlash scheme c
  let (credentials, location) := (splitCredentials authority).getD ([], authority)
  let emptyCredentials := authority.head? = some '@' ∧ credentials = []
  if emptyCredentials ∧ location = [] ∧ (followed ∨ rest ≠ []) then none
  else
    let (host, afterHost) := splitHost false location
    let number := (afterHost.drop 1).takeWhile (· != '\\')
    let beyond := (afterHost.drop 1).dropWhile (· != '\\')
    if host = [] ∧ (scheme.isSpecial ∨ afterHost ≠ [] ∨ (credentials ≠ [] ∧ credentials ≠ [':'])) then
      none
    else if !(if scheme.isSpecial then Host.isValid host else Host.isValidOpaque host) then none
    else if !isNumber16 number then none
    else some (beyond ++ rest)

def withAuthority (scheme : Scheme) (c : Cut) (cs : List Char) : Option Url := do
  let rest ← afterAuthority scheme c.followed cs
  some ⟨pathAfterHost scheme rest, c.query⟩

/-! ## URLs of files -/

def ofFile (c : Cut) (cs : List Char) : Option Url :=
  match cs with
  | a :: b :: rest =>
    if isSlash .file a && isSlash .file b then
      let host := rest.takeWhile fun c => !isSlash .file c
      let after := rest.dropWhile fun c => !isSlash .file c
      if isDrive host then some ⟨some (pathSegments .file rest), c.query⟩
      else if host ≠ [] ∧ !Host.isValid host then none
      else some ⟨pathAfterHost .file after, c.query⟩
    else
      some ⟨some (pathSegments .file (if isSlash .file a then b :: rest else cs)), c.query⟩
  | [a] => some ⟨some (pathSegments .file (if isSlash .file a then [] else cs)), c.query⟩
  | [] => some ⟨some [[]], c.query⟩

/-! ## Whole URLs -/

def ofAbsolute (c : Cut) (scheme : List Char) (cs : List Char) : Option Url :=
  match Scheme.ofName scheme with
  | .file => ofFile c cs
  | .web => withAuthority .web c (cs.dropWhile (isSlash .web))
  | .other =>
    match cs with
    | '/' :: '/' :: rest => withAuthority .other c rest
    | '/' :: rest => some ⟨some (pathSegments .other rest), c.query⟩
    | _ => some ⟨none, c.query⟩

/-- A URL without a scheme, seen from the root of a host of the web. -/
def ofRelative (c : Cut) (cs : List Char) : Option Url :=
  match cs with
  | '/' :: '/' :: rest => withAuthority .web c rest
  | a :: rest =>
    if isSlash .web a then
      if rest.head?.any (isSlash .web) then withAuthority .web c (cs.dropWhile (isSlash .web))
      else some ⟨some (pathSegments .web rest), c.query⟩
    else some ⟨some (pathSegments .web cs), c.query⟩
  | [] => some ⟨some [[]], c.query⟩

/-- Reads a URL; one that is no URL in itself may be one relative to a host of its scheme. -/
def ofChars (cs : List Char) : Option Url :=
  let c := cut (clean cs)
  match splitScheme c.body with
  | none => ofRelative c c.body
  | some (scheme, rest) =>
    match ofAbsolute c scheme rest with
    | some url => some url
    | none =>
      if scheme = "http".toList ∧ (rest.takeWhile (isSlash .web)).length < 2 then ofRelative c rest
      else none

def ofString (s : String) : Option Url :=
  ofChars s.toList

/-! ## Queries -/

/-- Decodes a key or a value of a query: a plus sign is a blank. -/
def decodePart (cs : List Char) : List Char :=
  percentDecode (cs.map fun c => if c = '+' then ' ' else c)

/-- The pairs of a query, in order; empty parts count for nothing. -/
def queryPairs (url : Url) : List (List Char × List Char) :=
  let parts := (Text.splitAt '&' (url.query.getD [])).filter (!·.isEmpty)
  parts.map fun part =>
    match Text.cutAt '=' part with
    | none => (decodePart part, [])
    | some (key, value) => (decodePart key, decodePart value)

end Url

end WikiPress
