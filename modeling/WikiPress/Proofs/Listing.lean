import WikiPress.Proofs.OneLine
import WikiPress.Proofs.Rule
import WikiPress.Proofs.Splitting
import WikiPress.Render

/-!
# Listings

Code stands as it is between two delimiter lines. Read by lines, a listing gives the code up to its first line that is
a delimiter itself, and so the whole code exactly when there is no such line in it.
-/

namespace WikiPress

namespace Text

/-! ## Lines -/

/-- The lines of a text, always one more than it has line ends. -/
def lines (s : String) : List String :=
  (splitAt '\n' s.toList).map String.ofList

theorem lines_append (a b : String) : lines (a ++ "\n" ++ b) = lines a ++ lines b := by
  have hchars : (a ++ "\n" ++ b).toList = a.toList ++ '\n' :: b.toList := by simp
  rw [lines, hchars, splitAt_append, List.map_append, ← lines, ← lines]

theorem lines_of_oneLine {s : String} (h : OneLine s) : lines s = [s] := by
  rw [lines, splitAt_of_not_mem h, List.map_singleton, String.ofList_toList]

theorem lines_intercalate : ∀ {texts : List String}, texts ≠ [] →
    lines (String.intercalate "\n" texts) = texts.flatMap lines
  | [s], _ => by rw [String.intercalate_singleton, List.flatMap_singleton]
  | s :: t :: texts, _ => by
    have rest := lines_intercalate (List.cons_ne_nil t texts)
    rw [String.intercalate_cons_cons, lines_append, rest]
    rfl

theorem flatMap_lines {texts : List String} (h : ∀ s ∈ texts, OneLine s) : texts.flatMap lines = texts := by
  induction texts with
  | nil => rfl
  | cons s texts ih =>
    obtain ⟨hs, htexts⟩ := List.forall_mem_cons.1 h
    rw [List.flatMap_cons, lines_of_oneLine hs, ih htexts, List.singleton_append]

theorem intercalate_lines (s : String) : String.intercalate "\n" (lines s) = s := by
  have hparts : (lines s).map String.toList = splitAt '\n' s.toList := by
    rw [lines, List.map_map]
    exact List.map_id'' (fun _ => String.toList_ofList) _
  have hchars : (String.intercalate "\n" (lines s)).toList = ['\n'].intercalate ((lines s).map String.toList) :=
    String.toList_intercalate
  rw [← String.toList_inj, hchars, hparts, intercalate_splitAt]

theorem oneLine_of_mem_lines {s line : String} (h : line ∈ lines s) : OneLine line := by
  obtain ⟨part, hpart, rfl⟩ := List.mem_map.1 h
  exact oneLine_ofList.2 (of_mem_splitAt hpart).1

end Text

namespace Render

open Text (OneLine lines)

/-! ## Reading -/

def isDelimiter (line : String) : Bool :=
  line = "----"

/-- What a listing holds: all that stands between its first delimiter line and the next. -/
def readListing (s : String) : Option String :=
  match (lines s).dropWhile (!isDelimiter ·) with
  | [] => none
  | _ :: rest => some (String.intercalate "\n" (rest.takeWhile (!isDelimiter ·)))

/-- The lines of a text before its first delimiter line. -/
def beforeDelimiter (text : String) : String :=
  String.intercalate "\n" ((lines text).takeWhile (!isDelimiter ·))

theorem takeWhile_append_delimiter (texts behind : List String) :
    (texts ++ "----" :: behind).takeWhile (!isDelimiter ·) = texts.takeWhile (!isDelimiter ·) := by
  rw [List.takeWhile_append, List.takeWhile_cons_of_neg (by decide), List.append_nil]
  split
  · rename_i hlength
    exact ((List.takeWhile_prefix _).eq_of_length hlength).symm
  · rfl

/-- A text between two delimiter lines is read up to its own first one. -/
theorem readListing_between {header : List String} (h : ∀ line ∈ header, OneLine line ∧ isDelimiter line = false)
    (text : String) :
    readListing (String.intercalate "\n" (header ++ ["----", text, "----", ""])) = some (beforeDelimiter text) := by
  have hlines : lines (String.intercalate "\n" (header ++ ["----", text, "----", ""])) =
      header ++ "----" :: (lines text ++ ["----", ""]) := by
    have hdelimiter : lines "----" = ["----"] := Text.lines_of_oneLine (by decide)
    have hend : lines "" = [""] := Text.lines_of_oneLine Text.OneLine.empty
    rw [Text.lines_intercalate (by simp), List.flatMap_append, Text.flatMap_lines fun line hline => (h line hline).1]
    simp [hdelimiter, hend]
  have hheader : ∀ line ∈ header, (!isDelimiter line) = true := fun line hline => by rw [(h line hline).2]; rfl
  rw [readListing, hlines, List.dropWhile_append_of_pos hheader, List.dropWhile_cons_of_neg (by decide)]
  simp only [takeWhile_append_delimiter, beforeDelimiter]

/-- A text without delimiter lines is all before the first. -/
theorem beforeDelimiter_eq_self_iff (text : String) : beforeDelimiter text = text ↔ "----" ∉ lines text := by
  constructor
  · intro h hmem
    by_cases hnil : (lines text).takeWhile (!isDelimiter ·) = []
    · rw [beforeDelimiter, hnil] at h
      rw [← h] at hmem
      exact absurd hmem (by decide)
    · have hlines := Text.lines_intercalate hnil
      rw [← beforeDelimiter, h, Text.flatMap_lines fun line hline =>
        Text.oneLine_of_mem_lines ((List.takeWhile_sublist _).subset hline)] at hlines
      rw [hlines] at hmem
      have := List.all_eq_true.1 List.all_takeWhile _ hmem
      exact absurd this (by decide)
  · intro h
    have hall : (lines text).takeWhile (!isDelimiter ·) = lines text := by
      refine List.takeWhile_eq_self_iff.2 fun line hline => ?_
      have hne : line ≠ "----" := fun he => h (he ▸ hline)
      simpa [isDelimiter] using hne
    rw [beforeDelimiter, hall, Text.intercalate_lines]

/-! ## Blocks of code -/

section
variable {node : Node}

/-- The line above a block of code. -/
def sourceLine (node : Node) : String :=
  match node.someText? "language" with
  | some language => "[source," ++ language ++ "]"
  | none => "[source]"

theorem join_codeMarkup (node : Node) : String.join (codeMarkup node) =
    String.intercalate "\n" (["", sourceLine node] ++ ["----", node.plainText, "----", ""]) := by
  rw [codeMarkup, sourceLine]
  cases node.someText? "language" <;> simp [← String.toList_inj, String.intercalate_cons_cons]

theorem sourceLine_isHeader (h : ∀ language, node.text? "language" = some language → OneLine language) :
    ∀ line ∈ ["", sourceLine node], OneLine line ∧ isDelimiter line = false := by
  refine List.forall_mem_cons.2 ⟨by decide, List.forall_mem_singleton.2 ?_⟩
  unfold sourceLine
  cases hlanguage : node.someText? "language" with
  | none => decide
  | some language =>
    have hline : OneLine language := h language (Option.filter_eq_some_iff.1 hlanguage).1
    refine ⟨(OneLine.append (by decide) hline).append (by decide), ?_⟩
    simp [isDelimiter, ← String.toList_inj]

theorem run_codeBlock {setting : Setting} {place : Place} {memory : Memory} (hkind : node.kind = .codeBlock)
    (hskip : memory.skipped ≠ some place) (scope : Scope) (indent : String) :
    (render setting scope place indent node).run memory = (codeMarkup node, memory) := by
  have hrule : Rule.ofNode setting scope indent node = .leaf (.fixed (codeMarkup node)) := by
    rw [Rule.ofNode, hkind]
  rw [render, run_visit setting hskip, hrule]
  rfl

/-- **Code read back.** A block of code is rendered with its text as it is, and the text is read back from there
exactly when none of its lines is a delimiter. -/
theorem listing_readBack {setting : Setting} {place : Place} {memory : Memory} (hkind : node.kind = .codeBlock)
    (hlanguage : ∀ language, node.text? "language" = some language → OneLine language)
    (hskip : memory.skipped ≠ some place) (scope : Scope) (indent : String) :
    (render setting scope place indent node).run memory = (codeMarkup node, memory) ∧
      (readListing (String.join (codeMarkup node)) = some node.plainText ↔ "----" ∉ lines node.plainText) := by
  refine ⟨run_codeBlock hkind hskip scope indent, ?_⟩
  rw [join_codeMarkup, readListing_between (sourceLine_isHeader hlanguage), Option.some.injEq,
    beforeDelimiter_eq_self_iff]

/-- Lines that are nearly delimiters, and a line end at either end. -/
theorem listing_readBack_nearly :
    let text (s : String) : Node := { type := "text", text := some s }
    let code : Node :=
      { type := "codeBlock", attrs := [("language", .string "sh")], content := [text "\n--", text "-- \n-----\n"] }
    ((render {} {} [] "" code).run {}).1 = codeMarkup code ∧
      readListing (String.join (codeMarkup code)) = some "\n---- \n-----\n" := by
  intro text code
  have hlanguage : ∀ language, code.text? "language" = some language → OneLine language := by
    rintro language h
    cases h
    decide
  have h := @listing_readBack code {} [] {} rfl hlanguage nofun {} ""
  exact ⟨congrArg Prod.fst h.1, h.2.2 (by decide)⟩

end

end Render

end WikiPress
