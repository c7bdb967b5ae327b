import WikiPress.Cli.Run

/-!
# The program

The file system of the machine, the arguments, and the two outputs.
-/

namespace WikiPress.Machine

/-- The number and the wording that the system gives for an error. -/
def errorNumber? : IO.Error → Option (UInt32 × String)
  | .alreadyExists _ n s | .otherError n s | .resourceBusy n s | .resourceVanished n s
  | .unsupportedOperation n s | .hardwareFault n s | .unsatisfiedConstraints n s
  | .illegalOperation n s | .protocolError n s | .timeExpired n s | .interrupted _ n s
  | .noFileOrDirectory _ n s | .invalidArgument _ n s | .permissionDenied _ n s
  | .resourceExhausted _ n s | .inappropriateType _ n s | .noSuchThing _ n s => some (n, s)
  | .unexpectedEof | .userError _ => none

/-- Some operations give the number with a minus sign. -/
def positive (n : UInt32) : Nat :=
  (if n < 0x80000000 then n else 0 - n).toNat

def fault (e : IO.Error) : FileFault :=
  match (errorNumber? e).map fun (n, reason) => (positive n, reason) with
  | some (2, _) => .noEntry
  | some (13, _) => .notPermitted
  | some (17, _) => .alreadyThere
  | some (20, _) => .notDirectory
  | some (21, _) => .isDirectory
  | some (36, _) => .nameTooLong
  | some (n, reason) => .other (FileFault.withNumber reason n)
  | none => .other (toString e)

def caught {α : Type} (action : IO α) : IO (Except FileFault α) := do
  match ← action.toBaseIO with
  | .ok a => return .ok a
  | .error e => return .error (fault e)

def read (name : String) : IO (Except FileFault String) := do
  match ← caught (IO.FS.readBinFile name) with
  | .error fault => return .error fault
  | .ok bytes =>
    match String.fromUTF8? bytes with
    | some text => return .ok text
    | none => return .error .notText

/-- A directory is what cannot be read for just that reason. -/
def isDirectory (name : String) : IO Bool := do
  match ← read name with
  | .error .isDirectory => return true
  | _ => return false

/-- A file is what is there and no directory, readable or not. -/
def isFile (name : String) : IO Bool := do
  match ← read name with
  | .ok _ | .error .notText | .error .notPermitted => return true
  | .error _ => return false

def files : FileSystem IO where
  read := read
  write name text := caught (IO.FS.writeFile name text)
  isFile := isFile
  isDirectory := isDirectory
  makeDirectory name := caught (IO.FS.createDir name)

def usage : String :=
  "Usage: " ++ Cli.programName ++ " [--config PATH] COMMAND INPUT [OPTIONS]\n\n" ++
  "  convert         [-o FILE] [--title TEXT] [--page-mapping FILE] [--attachments FILE]\n" ++
  "                  [--base-url URL] [--jira-base-url URL] [--images-dir DIR]\n" ++
  "  substitute-ids  --mapping FILE [-o FILE]\n" ++
  "  clamp-widths    [--max-width PIXELS] [-o FILE]\n" ++
  "  linked-pages    [--base-url URL]\n"

end WikiPress.Machine

open WikiPress in
def main (arguments : List String) : IO UInt32 := do
  let selection := (← IO.getEnv "RUST_LOG").getD ""
  let outcome ← Cli.run Machine.files selection arguments
  IO.print outcome.stdout
  IO.eprint outcome.stderr
  if outcome.explained then
    if outcome.status = 0 then IO.print Machine.usage else IO.eprint Machine.usage
  return outcome.status.toUInt32
