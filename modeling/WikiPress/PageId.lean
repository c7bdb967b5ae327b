import WikiPress.Url

/-!
# Page ids

The id of the wiki page that a URL points to: the query says it, or the path does in one of two ways.
-/

namespace WikiPress.PageId

/-- The value of the first pair of a query under `pageId`, unless it is empty. -/
def ofQuery (pairs : List (List Char × List Char)) : Option (List Char) :=
  match pairs.find? fun (key, _) => key = "pageId".toList with
  | some (_, []) | none => none
  | some (_, id) => some id

/-- The digits after the first segment `pages` that digits follow. -/
def afterPages : List (List Char) → Option (List Char)
  | a :: b :: rest =>
    if a = "pages".toList ∧ Text.isNumeric b then some b else afterPages (b :: rest)
  | _ => none

/-- The digits after the first segments `pages` and `viewpage.action` that digits follow. -/
def afterViewPage : List (List Char) → Option (List Char)
  | a :: b :: c :: rest =>
    if a = "pages".toList ∧ b = "viewpage.action".toList ∧ Text.isNumeric c then some c
    else afterViewPage (b :: c :: rest)
  | _ => none

def ofSegments (segments : List (List Char)) : Option (List Char) :=
  (afterPages segments).or (afterViewPage segments)

def ofUrl (url : Url) : Option (List Char) :=
  (ofQuery url.queryPairs).or (url.segments.bind ofSegments)

/-- The id that a text names as a URL, if it is one. -/
def ofString (s : String) : Option String :=
  ((Url.ofString s).bind ofUrl).map String.ofList

end WikiPress.PageId
