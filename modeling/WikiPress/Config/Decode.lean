import WikiPress.Config.Value
import WikiPress.Options

/-!
# Settings

The settings that a configuration gives, read from its values. A text may be given as a number or a
truth value, and a width as a text; nothing else is turned into another kind.
-/

namespace WikiPress

structure Settings where
  baseUrl : String
  trackerUrl : String
  imagesDir : String
  imageExtension : String
  maxImageWidth : Nat
  deriving DecidableEq, Repr

namespace Settings

/-- The width to clamp images to; 0 means that there is none. -/
def clampWidth (settings : Settings) : Option Nat :=
  if settings.maxImageWidth = 0 then none else some settings.maxImageWidth

def options (settings : Settings) : Options :=
  Options.withTracker settings.trackerUrl
    { baseUrl := settings.baseUrl
      imagesDir := settings.imagesDir
      imageExtension := settings.imageExtension }

end Settings

namespace Config

inductive Fault where
  | fileParse
  | pathParse
  | type (found expected : String) (key file : Option String)
  | message (text : String)
  | foreign (text : String)
  deriving DecidableEq, Repr

def Fault.text : Fault → Option String
  | .fileParse | .pathParse => none
  | .type found expected key file =>
    some ("invalid type: " ++ found ++ ", expected " ++ expected ++
      (match key with
       | some key => " for key \x60" ++ key ++ "\x60"
       | none => "") ++
      (match file with
       | some file => " in " ++ file
       | none => ""))
  | .message text | .foreign text => some text

/-! ## Found values -/

/-- A float with a fraction always, and every digit in its place. -/
def fractionLayout : Decimal.Layout :=
  ⟨fun _ => true, ['.', '0']⟩

/-- A found value, as a complaint about one setting names it. -/
def foundText : Value → String
  | .scalar _ .none => "unit value"
  | .scalar _ (.boolean b) => "boolean \x60" ++ (if b then "true" else "false") ++ "\x60"
  | .scalar _ (.integer n) => "64-bit integer \x60" ++ toString n ++ "\x60"
  | .scalar _ (.float x) => "floating point \x60" ++ .ofList (x.text Binary64.plainLayout) ++ "\x60"
  | .scalar _ (.string s) => "string " ++ Text.quoted s
  | .array .. => "sequence"
  | .table .. => "map"

/-- A found value, as a complaint about a group of settings names it. -/
def groupText : Value → String
  | .scalar _ (.integer n) => "integer \x60" ++ toString n ++ "\x60"
  | .scalar _ (.float x) => "floating point \x60" ++ .ofList (x.text fractionLayout) ++ "\x60"
  | v => foundText v

/-! ## Single settings -/

def complaint (v : Value) (expected : String) : Fault :=
  .type (foundText v) expected none v.file

def textOf (v : Value) : Except Fault String :=
  match v with
  | .scalar _ (.string s) => .ok s
  | .scalar _ (.integer n) => .ok (toString n)
  | .scalar _ (.float x) => .ok (.ofList (x.text Binary64.plainLayout))
  | .scalar _ (.boolean b) => .ok (if b then "true" else "false")
  | v => .error (complaint v "a string")

/-- A number without sign in a text, or a word for 1 or 0. -/
def unsignedOf? (s : String) : Option Nat :=
  match foldKey s with
  | "true" | "on" | "yes" => some 1
  | "false" | "off" | "no" => some 0
  | _ => Text.unsigned64? s

def unsignedOf (v : Value) : Except Fault Nat :=
  match v with
  | .scalar _ (.integer n) =>
    if 0 ≤ n then .ok n.toNat
    else .error (complaint v "an unsigned 64 bit or less integer")
  | .scalar _ (.float x) => .ok x.round64
  | .scalar _ (.boolean b) => .ok (if b then 1 else 0)
  | .scalar _ (.string s) =>
    match unsignedOf? s with
    | some n => .ok n
    | none => .error (complaint v "an integer")
  | v => .error (complaint v "an integer")

/-! ## Groups of settings -/

/-- Tells which key a complaint is about. -/
def Fault.under (key : String) : Fault → Fault
  | .type found expected (some inner) file =>
    let dot := if inner.toList.head? = some '[' then "" else "."
    .type found expected (some (key ++ dot ++ inner)) file
  | .type found expected none file => .type found expected (some key) file
  | fault => fault

/-- What a group of settings is written as: entries by name, or items in order. -/
inductive Group where
  | named (entries : List (String × Value))
  | listed (items : List Value)

def groupOf (name : String) (v : Value) : Except Fault Group :=
  match v with
  | .table _ entries => .ok (.named entries)
  | .array _ items => .ok (.listed items)
  | v => .error (.message ("invalid type: " ++ groupText v ++ ", expected struct " ++ name))

def countText (n : Nat) : String :=
  toString n ++ (if n = 1 then " element" else " elements")

/-- One setting of a group, by its name and its place. -/
def member {α : Type} (name : String) (total i : Nat) (key : String) (read : Value → Except Fault α) :
    Group → Except Fault α
  | .named entries =>
    match entries.lookup key with
    | some v => (read v).mapError (·.under key)
    | none => .error (.message ("missing field \x60" ++ key ++ "\x60"))
  | .listed items =>
    match items[i]? with
    | some v => (read v).mapError (·.under ("[" ++ toString i ++ "]"))
    | none =>
      .error (.message ("invalid length " ++ toString i ++ ", expected struct " ++ name ++ " with " ++
        countText total))

def rootMember (root : Value) (key : String) : Except Fault Value :=
  match root.get? key with
  | some v => .ok v
  | none => .error (.message ("missing field \x60" ++ key ++ "\x60"))

def decode (root : Value) : Except Fault Settings := do
  let convert ← groupOf "ConvertConfig" (← rootMember root "convert")
  let text (i : Nat) (key : String) : Except Fault String :=
    (member "ConvertConfig" 4 i key textOf convert).mapError (·.under "convert")
  let baseUrl ← text 0 "base_url"
  let trackerUrl ← text 1 "jira_base_url"
  let imagesDir ← text 2 "images_dir"
  let imageExtension ← text 3 "default_image_extension"
  let upload ← groupOf "UploadConfig" (← rootMember root "upload")
  let maxImageWidth ←
    (member "UploadConfig" 1 0 "max_image_width" unsignedOf upload).mapError (·.under "upload")
  .ok { baseUrl, trackerUrl, imagesDir, imageExtension, maxImageWidth }

end Config

end WikiPress
