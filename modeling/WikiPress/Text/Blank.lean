/-!
# Blank characters

White space in the sense of the Unicode property `White_Space`, and trimming by it. Trimming at
the end is dropping from the reversed text, so nothing between two other characters is touched.
-/

namespace WikiPress.Text

/-- The characters with the property `White_Space`, as ranges of code points. -/
def blankRanges : List (Nat × Nat) :=
  [(0x09, 0x0D), (0x20, 0x20), (0x85, 0x85), (0xA0, 0xA0), (0x1680, 0x1680), (0x2000, 0x200A),
   (0x2028, 0x2029), (0x202F, 0x202F), (0x205F, 0x205F), (0x3000, 0x3000)]

def isBlank (c : Char) : Bool :=
  blankRanges.any fun (first, last) => first ≤ c.toNat && c.toNat ≤ last

/-! ## Trimming lists of characters -/

def dropBlankStart (cs : List Char) : List Char :=
  cs.dropWhile isBlank

def dropBlankEnd (cs : List Char) : List Char :=
  (cs.reverse.dropWhile isBlank).reverse

def blankEnd (cs : List Char) : List Char :=
  (cs.reverse.takeWhile isBlank).reverse

theorem dropBlankEnd_append_blankEnd (cs : List Char) :
    dropBlankEnd cs ++ blankEnd cs = cs := by
  simp [dropBlankEnd, blankEnd, ← List.reverse_append]

theorem isBlank_of_mem_blankEnd {c : Char} {cs : List Char} (h : c ∈ blankEnd cs) :
    isBlank c = true := by
  have : ∀ l : List Char, c ∈ l.takeWhile isBlank → isBlank c = true := by
    intro l hl
    induction l with
    | nil => simp at hl
    | cons a l ih =>
      rw [List.takeWhile_cons] at hl
      split at hl
      · rcases List.mem_cons.1 hl with rfl | hl
        · assumption
        · exact ih hl
      · simp at hl
  exact this _ (by simpa [blankEnd] using h)

/-! ## Trimming texts -/

def trimStart (s : String) : String :=
  .ofList (dropBlankStart s.toList)

def trimEnd (s : String) : String :=
  .ofList (dropBlankEnd s.toList)

def trim (s : String) : String :=
  .ofList (dropBlankEnd (dropBlankStart s.toList))

def isAllBlank (s : String) : Bool :=
  s.toList.all isBlank

/-- Drops the leading line ends, and no other blank. -/
def trimLineStart (s : String) : String :=
  .ofList (s.toList.dropWhile (· == '\n'))

@[simp] theorem toList_trimStart (s : String) : (trimStart s).toList = dropBlankStart s.toList :=
  String.toList_ofList

@[simp] theorem toList_trimEnd (s : String) : (trimEnd s).toList = dropBlankEnd s.toList :=
  String.toList_ofList

@[simp] theorem toList_trim (s : String) :
    (trim s).toList = dropBlankEnd (dropBlankStart s.toList) :=
  String.toList_ofList

@[simp] theorem toList_trimLineStart (s : String) :
    (trimLineStart s).toList = s.toList.dropWhile (· == '\n') :=
  String.toList_ofList

end WikiPress.Text
