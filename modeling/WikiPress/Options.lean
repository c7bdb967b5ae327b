import WikiPress.Catalog

/-!
# Options

What the caller of a conversion lays down beforehand.
-/

namespace WikiPress

structure Options where
  pages : Dictionary Page := []
  /-- The file that is being written; links to other pages are relative to its directory. -/
  currentFile : String := ""
  /-- Links that contain this URL may be links to pages of the wiki. -/
  baseUrl : String := ""
  /-- Links that contain this URL may be links to issues. -/
  trackerUrl : Option String := none
  imagesDir : String := "images"
  fileNames : Dictionary String := []
  attachments : List Attachment := []
  /-- The extension of images whose name has none. -/
  imageExtension : String := "png"
  deriving DecidableEq, Repr

namespace Options

/-- Sets the URL of the issue tracker; the empty URL means that there is none. -/
def withTracker (url : String) (options : Options) : Options :=
  { options with trackerUrl := if url = "" then none else some url }

end Options

end WikiPress
