/-!
# Failures

What ends an operation: an input that cannot be read, an output that cannot be made, or a file that
cannot be used. A macro that fails does not end anything; its failure is told in a comment.
-/

namespace WikiPress

inductive Failure where
  | parse (reason : String)
  | serialization (reason : String)
  | file (reason : String)
  deriving DecidableEq, Repr

def Failure.message : Failure → String
  | .parse reason => "Parse error: " ++ reason
  | .serialization reason => "Serialization error: " ++ reason
  | .file reason => "I/O error: " ++ reason

inductive MacroFailure where
  | missing (name : String)
  | invalid (name reason : String)
  deriving DecidableEq, Repr

def MacroFailure.message : MacroFailure → String
  | .missing name => "missing parameter '" ++ name ++ "'"
  | .invalid name reason => "invalid parameter '" ++ name ++ "': " ++ reason

end WikiPress
