import WikiPress.Dictionary
import WikiPress.Notice

/-!
# What rendering knows and remembers

The scope of a node is what the nodes around it make of it; it is handed down and never changed. The
memory belongs to the whole document: the anchors met so far, the users mentioned, one node that is to
be left out when it is met next, and the notices.
-/

namespace WikiPress.Render

/-- Where a node stands: the indices of its ancestors and itself, from the innermost to the
outermost. Two nodes are the same when they stand in the same place, whatever they hold. -/
abbrev Place := List Nat

structure Scope where
  listDepth : Nat := 0
  /-- The innermost list is no ordered one. Items outside of lists count as bulleted. -/
  bulleted : Bool := true
  inCell : Bool := false
  deriving DecidableEq, Repr

namespace Scope

def inList (scope : Scope) (bulleted : Bool) : Scope :=
  { scope with listDepth := scope.listDepth + 1, bulleted }

def cell (scope : Scope) : Scope :=
  { scope with inCell := true }

end Scope

structure Memory where
  anchors : List String := []
  mentions : Dictionary String := []
  /-- The node that is left out when it is met next. -/
  skipped : Option Place := none
  /-- The latest notice comes first. -/
  notices : List Notice := []
  deriving DecidableEq, Repr

namespace Memory

/-- Anchors keep the order in which they were first met. -/
def addAnchor (id : String) (memory : Memory) : Memory :=
  if memory.anchors.contains id then memory
  else { memory with anchors := memory.anchors ++ [id] }

/-- The id of a user is the one that was recorded last. -/
def addMention (name id : String) (memory : Memory) : Memory :=
  { memory with mentions := memory.mentions.insert name id }

/-- Has the node in a place left out; a node that was to be left out before is not any more. -/
def skip (place : Place) (memory : Memory) : Memory :=
  { memory with skipped := some place }

/-- Is the node in a place to be left out? It is left out once. -/
def takeSkip (place : Place) (memory : Memory) : Bool × Memory :=
  if memory.skipped = some place then (true, { memory with skipped := none })
  else (false, memory)

def note (notice : Notice) (memory : Memory) : Memory :=
  { memory with notices := notice :: memory.notices }

end Memory

/-- Rendering goes through a document in order and passes the memory on. -/
abbrev RenderM := StateM Memory

end WikiPress.Render
