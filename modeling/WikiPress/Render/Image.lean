import WikiPress.Options
import WikiPress.Text.Blank

/-!
# Images

File names of media, and the markup of images in a block of their own and in a line.
-/

namespace WikiPress.Render

/-- The known name of an attached file: by its media id, else from the listing of the page. -/
def knownFileName? (options : Options) (id : String) : Option String :=
  ((options.fileNames.lookup id).filter (· != "")).or
    (((options.attachments.find? (·.id == id)).map Attachment.title).filter (· != ""))

/-- Names without any dot get the extension for images, and so do unknown ids. -/
def fileName (options : Options) (id : String) : String :=
  match knownFileName? options id with
  | some name => if name.toList.contains '.' then name else name ++ "." ++ options.imageExtension
  | none => id ++ "." ++ options.imageExtension

def mediaFileName (options : Options) (node : Node) : String :=
  fileName options ((node.text? "id").getD "")

/-- The title of an image: its caption, else the text that stands for it. -/
def imageTitle? (node : Node) (caption : Option String) : Option String :=
  ((caption.map Text.trim).filter (· != "")).or (node.someText? "alt")

/-- An image in a block of its own. A title that only repeats the file name is left out. -/
def imageBlock (options : Options) (node : Node) (caption : Option String) : String :=
  let name := mediaFileName options node
  let image := "image::" ++ name ++ "[]\n"
  match imageTitle? node caption with
  | some title => if title = name then image else "." ++ title ++ "\n" ++ image
  | none => image

def imageInline (options : Options) (node : Node) : String :=
  let name := mediaFileName options node
  let alt := ((node.someText? "alt").filter (· != name)).getD ""
  "image:" ++ name ++ "[" ++ alt ++ "]"

end WikiPress.Render
