/-!
# Searching texts

Occurrence of one text in another, cutting at the first occurrence of a character, and the
replacement of single characters.
-/

namespace WikiPress.Text

/-! ## Occurrence -/

/-- Does `pattern` occur somewhere in the list? The empty pattern occurs everywhere. -/
def hasInfix (pattern : List Char) : List Char → Bool
  | [] => pattern.isEmpty
  | c :: cs => pattern.isPrefixOf (c :: cs) || hasInfix pattern cs

theorem hasInfix_iff {pattern cs : List Char} : hasInfix pattern cs = true ↔ pattern <:+: cs := by
  induction cs with
  | nil => rw [hasInfix, List.isEmpty_iff, List.infix_nil]
  | cons c cs ih => rw [hasInfix, Bool.or_eq_true_iff, List.isPrefixOf_iff_prefix, ih, List.infix_cons_iff]

def contains (text pattern : String) : Bool :=
  hasInfix pattern.toList text.toList

theorem contains_iff {text pattern : String} : contains text pattern = true ↔ pattern.toList <:+: text.toList :=
  hasInfix_iff

/-- What follows `start` in a list that begins with it. -/
def afterStart? : List Char → List Char → Option (List Char)
  | [], cs => some cs
  | _ :: _, [] => none
  | p :: ps, c :: cs => if p = c then afterStart? ps cs else none

theorem afterStart?_eq_some_iff {start cs rest : List Char} :
    afterStart? start cs = some rest ↔ cs = start ++ rest := by
  induction start generalizing cs with
  | nil => simp [afterStart?]
  | cons p ps ih =>
    cases cs with
    | nil => simp [afterStart?]
    | cons c cs =>
      by_cases h : p = c
      · simp [afterStart?, h, ih]
      · simp [afterStart?, h, Ne.symm h]

/-! ## Cutting -/

def cutAt (c : Char) : List Char → Option (List Char × List Char)
  | [] => none
  | d :: cs => if d = c then some ([], cs) else (cutAt c cs).map fun (a, b) => (d :: a, b)

/-- The parts between the occurrences of `c`: always one more than there are occurrences. -/
def splitAt (c : Char) : List Char → List (List Char)
  | [] => [[]]
  | d :: cs =>
    if d = c then [] :: splitAt c cs
    else
      match splitAt c cs with
      | [] => [[d]]
      | part :: parts => (d :: part) :: parts

/-- Cuts at the first `c`; a text without one is all before it. -/
def splitFirst (c : Char) (s : String) : String × Option String :=
  match cutAt c s.toList with
  | none => (s, none)
  | some (before, after) => (.ofList before, some (.ofList after))

/-! ## Replacement of single characters -/

def replaceChar (c : Char) (by' : List Char) (cs : List Char) : List Char :=
  cs.flatMap fun d => if d = c then by' else [d]

theorem replaceChar_of_not_mem {c : Char} {cs : List Char} (h : c ∉ cs) (by' : List Char) :
    replaceChar c by' cs = cs := by
  induction cs with
  | nil => rfl
  | cons d cs ih =>
    obtain ⟨hd, hc⟩ := not_or.1 (mt List.mem_cons.2 h)
    rw [replaceChar, List.flatMap_cons, if_neg (Ne.symm hd)]
    exact congrArg (d :: ·) (ih hc)

def escapeChar (c : Char) (s : String) : String :=
  .ofList (replaceChar c ['\\', c] s.toList)

@[simp] theorem toList_escapeChar (c : Char) (s : String) :
    (escapeChar c s).toList = replaceChar c ['\\', c] s.toList :=
  String.toList_ofList

end WikiPress.Text
