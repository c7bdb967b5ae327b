/-!
# Faults of files

Why a file or a directory could not be used, with the number that the system gives for it.
-/

namespace WikiPress

inductive FileFault where
  | noEntry
  | alreadyThere
  | notDirectory
  | isDirectory
  | nameTooLong
  | nulInName
  | notPermitted
  | notText
  | other (reason : String)
  deriving DecidableEq, Repr

namespace FileFault

def withNumber (reason : String) (number : Nat) : String :=
  reason ++ " (os error " ++ toString number ++ ")"

def message : FileFault → String
  | .noEntry => withNumber "No such file or directory" 2
  | .alreadyThere => withNumber "File exists" 17
  | .notDirectory => withNumber "Not a directory" 20
  | .isDirectory => withNumber "Is a directory" 21
  | .nameTooLong => withNumber "File name too long" 36
  | .nulInName => "file name contained an unexpected NUL byte"
  | .notPermitted => withNumber "Permission denied" 13
  | .notText => "stream did not contain valid UTF-8"
  | .other reason => reason

end FileFault

end WikiPress
