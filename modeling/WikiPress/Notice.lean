/-!
# Notices

What a conversion has to tell beside its text: types and macros nobody knows, links to pages that were
not converted, and what was done with files.
-/

namespace WikiPress

inductive Level where
  | error
  | warn
  | info
  | debug
  | trace
  deriving DecidableEq, Repr

namespace Level

/-- More detailed levels are higher. -/
def rank : Level → Nat
  | .error => 1
  | .warn => 2
  | .info => 3
  | .debug => 4
  | .trace => 5

def name : Level → String
  | .error => "ERROR"
  | .warn => "WARN"
  | .info => "INFO"
  | .debug => "DEBUG"
  | .trace => "TRACE"

end Level

inductive Notice where
  | unknownType (type : String)
  | macroWithoutHandler (position key : String)
  | macroFailed (position key reason : String)
  | unmappedLabel (label : String)
  | unmappedPage (href : String)
  | mentionedUser (name id : String)
  | wroteFile (path : String)
  | noWidthConfigured
  deriving DecidableEq, Repr

namespace Notice

def level : Notice → Level
  | .unknownType _ => .trace
  | .macroWithoutHandler .. | .unmappedLabel _ | .unmappedPage _ | .mentionedUser .. => .debug
  | .wroteFile _ | .noWidthConfigured => .info
  | .macroFailed .. => .warn

/-- The part of the program that speaks, by which notices are selected. -/
def topic : Notice → String
  | .unknownType _ => "adf_babel::formats::asciidoc::serializer"
  | .macroWithoutHandler .. | .macroFailed .. => "adf_babel::extensions"
  | .unmappedLabel _ => "adf_babel::extensions::inline"
  | .unmappedPage _ => "adf_babel::common::links"
  | .mentionedUser .. | .wroteFile _ | .noWidthConfigured => "adf2adoc"

def text : Notice → String
  | .unknownType type => "rendering unknown node type '" ++ type ++ "' transparently"
  | .macroWithoutHandler position key => "no handler for " ++ position ++ " extension '" ++ key ++ "'"
  | .macroFailed position key reason =>
    position ++ " extension '" ++ key ++ "' failed: " ++ reason
  | .unmappedLabel label => "unmapped workflow metadata label: " ++ label
  | .unmappedPage href => "cross-page link to unmapped page: " ++ href
  | .mentionedUser name id => "mentioned user " ++ name ++ " (" ++ id ++ ")"
  | .wroteFile path => "wrote " ++ path
  | .noWidthConfigured => "no maximum image width configured, leaving widths unchanged"

end Notice

end WikiPress
