import WikiPress.Document.Printer
import WikiPress.Document.Reading

/-!
# Catalogs of pages and files

What is known of a wiki beside the page at hand: titles and places of its pages by id, and the names of
attached files by media id.
-/

namespace WikiPress

open Json (Reader)

structure Page where
  title : String := ""
  /-- Where the page was written to, if it was. -/
  path : Option String := none
  deriving DecidableEq, Repr

structure Attachment where
  id : String := ""
  title : String := ""
  deriving DecidableEq, Repr

namespace Page

def reader : Nat → Reader Page :=
  Json.record "PageInfo"
    [.of "title" (fun _ => Json.text) fun title page => { page with title },
     .of "path" (fun _ => Json.optional Json.path) fun path page => { page with path }]
    {}

def readMapping (s : String) : Except String (Dictionary Page) :=
  Json.readText (Json.dictionary reader Json.deepest) s

def chars (page : Page) : List Char :=
  '\x7b' :: Json.stringChars "title" ++ ':' :: Json.stringChars page.title ++ [','] ++
    Json.stringChars "path" ++ [':'] ++
    (match page.path with
     | none => ['n', 'u', 'l', 'l']
     | some path => Json.stringChars path) ++
    ['\x7d']

def mappingText (pages : Dictionary Page) : String :=
  let members := pages.map fun (id, page) => Json.stringChars id ++ ':' :: page.chars
  .ofList ('\x7b' :: commaSeparated members ++ ['\x7d'])

end Page

namespace Attachment

def reader : Nat → Reader Attachment :=
  Json.record "MediaFile"
    [.need "id" (fun _ => Json.text) fun id file => { file with id },
     .of "title" (fun _ => Json.text) fun title file => { file with title }]
    {}

def readList (s : String) : Except String (List Attachment) :=
  Json.readText (Json.list reader Json.deepest) s

def chars (file : Attachment) : List Char :=
  '\x7b' :: Json.stringChars "id" ++ ':' :: Json.stringChars file.id ++ [','] ++
    Json.stringChars "title" ++ ':' :: Json.stringChars file.title ++ ['\x7d']

def listText (files : List Attachment) : String :=
  .ofList ('[' :: commaSeparated (files.map chars) ++ [']'])

end Attachment

def readNames (s : String) : Except String (Dictionary String) :=
  Json.readText (Json.dictionary (fun _ => Json.text) Json.deepest) s

end WikiPress
