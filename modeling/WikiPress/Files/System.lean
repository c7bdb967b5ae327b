import WikiPress.Files.Fault
import WikiPress.Path

/-!
# File systems

The few operations on files that the program needs, whoever provides them, and the creation of a
directory with those above it.
-/

namespace WikiPress

structure FileSystem (m : Type → Type) where
  read : String → m (Except FileFault String)
  write : String → String → m (Except FileFault Unit)
  isFile : String → m Bool
  isDirectory : String → m Bool
  makeDirectory : String → m (Except FileFault Unit)

namespace FileSystem

variable {m : Type → Type} [Monad m]

/-- Makes a directory; one that is there already is as good. -/
def ensureDirectory (fs : FileSystem m) (name : String) : m (Except FileFault Unit) := do
  match ← fs.makeDirectory name with
  | .ok () => return .ok ()
  | .error fault => if ← fs.isDirectory name then return .ok () else return .error fault

/-- Makes a directory and those above it that are missing. The steps are given from the last to the
first. -/
def makeDirectories (fs : FileSystem m) : List Step → m (Except FileFault Unit)
  | [] => return .ok ()
  | step :: outer => do
    let name := Path.toString (step :: outer).reverse
    match ← fs.ensureDirectory name with
    | .ok () => return .ok ()
    | .error .noEntry =>
      match ← makeDirectories fs outer with
      | .ok () => fs.ensureDirectory name
      | .error fault => return .error fault
    | .error fault => return .error fault

end FileSystem

end WikiPress
