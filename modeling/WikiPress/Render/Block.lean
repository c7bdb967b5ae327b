import WikiPress.Document.Node

/-!
# Blocks

Headings, code, panels and rules, given the markup of what is in them.
-/

namespace WikiPress.Render

/-- Headings have one of six levels. -/
def headingLevel (node : Node) : Nat :=
  min 6 (max 1 ((node.unsigned64? "level").getD 1))

def headingMarkup (level : Nat) (text : String) : String :=
  "\n" ++ String.ofList (List.replicate level '=') ++ " " ++ Text.trim text ++ "\n"

/-- A paragraph with nothing to see is left out. -/
def paragraphMarkup (indent text : String) : List String :=
  if Text.isAllBlank text then [] else [indent ++ text ++ "\n\n"]

/-- The code stands between two delimiter lines as it is. -/
def codeMarkup (node : Node) : List String :=
  let header :=
    match node.someText? "language" with
    | some language => "\n[source," ++ language ++ "]"
    | none => "\n[source]"
  [header, "\n----", "\n" ++ node.plainText, "\n----\n"]

def admonition (node : Node) : String :=
  match (node.text? "panelType").getD "info" with
  | "tip" | "success" => "TIP"
  | "warning" => "WARNING"
  | "error" => "CAUTION"
  | _ => "NOTE"

def panelMarkup (node : Node) (body : String) : String :=
  "\n[" ++ admonition node ++ "]\n====\n" ++ Text.trim body ++ "\n====\n"

def ruleMarkup : String :=
  "\n'''\n"

def hardBreakMarkup : String :=
  " +\n"

end WikiPress.Render
