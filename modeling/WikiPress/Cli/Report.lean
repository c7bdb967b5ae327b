import WikiPress.Notice.Filter

/-!
# Reports

What a command has to say at its end, and how that comes out: as a status with what is written to the
standard output and to the standard error output.
-/

namespace WikiPress.Cli

/-- The end of a command: it fails when it has a complaint. -/
structure Report where
  stdout : String := ""
  /-- What was noticed on the way, in order. -/
  notices : List Notice := []
  complaint : Option String := none
  deriving DecidableEq, Repr

structure Outcome where
  status : Nat := 0
  stdout : String := ""
  stderr : String := ""
  explained : Bool := false
  deriving DecidableEq, Repr

namespace Report

def failed (complaint : String) : Report :=
  { complaint := some complaint }

def status (report : Report) : Nat :=
  if report.complaint.isSome then 1 else 0

/-- The notices that a filter shows come before the complaint. -/
def outcome (filter : Notice.Filter) (report : Report) : Outcome where
  status := report.status
  stdout := report.stdout
  stderr :=
    Notice.shownLines filter report.notices ++
      (match report.complaint with
       | some complaint => complaint ++ "\n"
       | none => "")

end Report

def warningLines (complaints : List String) : String :=
  String.join (complaints.map fun complaint => "warning: " ++ complaint ++ ", ignoring it\n")

end WikiPress.Cli
