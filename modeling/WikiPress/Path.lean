import WikiPress.Text.Search

/-!
# Paths

Paths as lists of steps, and the path from one place to another. Everything here is read off the
names alone; no file is looked at.
-/

namespace WikiPress

/-- A step of a path: to the root, to where one is, to the parent, or into a name. -/
inductive Step where
  | root
  | here
  | up
  | name (s : String)
  deriving DecidableEq, Repr

namespace Step

def text : Step → String
  | .root => "/"
  | .here => "."
  | .up => ".."
  | .name s => s

def ofPart? (part : List Char) : Option Step :=
  if part = [] ∨ part = ['.'] then none
  else if part = ['.', '.'] then some .up
  else some (.name (.ofList part))

/-- The steps for the part before the first slash; if it is empty, the slash is the root. -/
def ofFirstPart (part : List Char) : List Step :=
  if part = [] then [.root]
  else if part = ['.'] then [.here]
  else (ofPart? part).toList

end Step

abbrev Path := List Step

namespace Path

/-- Reads a path; a `.` counts at its start only, and slashes in a row count as one. -/
def ofChars (cs : List Char) : Path :=
  if cs = [] then []
  else
    match Text.splitAt '/' cs with
    | [] => []
    | first :: parts => Step.ofFirstPart first ++ parts.filterMap Step.ofPart?

def ofString (s : String) : Path :=
  ofChars s.toList

def isAbsolute (path : Path) : Bool :=
  path.head? = some .root

def toString : Path → String
  | .root :: steps => "/" ++ String.intercalate "/" (steps.map Step.text)
  | steps => String.intercalate "/" (steps.map Step.text)

/-- The path without its last step; the root has no parent. -/
def parent (path : Path) : Path :=
  if path.getLast? = some .root then [] else path.dropLast

/-- The steps from the directory `base` to `target`. Equal first steps are left out, each other step of
the base is undone, and a step up in the base cannot be undone. -/
def difference (started : Bool) : Path → Path → Option Path
  | [], [] => some []
  | step :: target, [] => some (step :: target)
  | [], _ :: base => (difference true [] base).map (.up :: ·)
  | step :: target, other :: base =>
    if !started ∧ step = other then difference false target base
    else if other = .here then (difference true target base).map (step :: ·)
    else if other = .up then none
    else some (.up :: base.map (fun _ => .up) ++ step :: target)

end Path

/-- A path from the directory of a file to a target, with forward slashes. Where there is none, it is
the target itself. -/
def relativePath (target current : String) : String :=
  let steps := Path.ofString target
  let base := (Path.ofString current).parent
  let relative :=
    if steps.isAbsolute = base.isAbsolute then (Path.difference false steps base).map Path.toString
    else none
  .ofList (Text.replaceChar '\\' ['/'] (relative.getD target).toList)

end WikiPress
