import WikiPress.Text.Search

/-!
# Split texts

The parts between the occurrences of a character: which parts there are, and how they go together again.
-/

namespace WikiPress.Text

theorem splitAt_eq_splitOn (c : Char) (cs : List Char) : splitAt c cs = cs.splitOn c := by
  induction cs with
  | nil => exact (List.splitOn_nil c).symm
  | cons d cs ih =>
    rw [splitAt, List.splitOn, List.splitOnP_cons_eq_if_modifyHead, ← List.splitOn, ← ih]
    by_cases hd : d = c
    · rw [if_pos hd, if_pos (beq_iff_eq.2 hd)]
    · rw [if_neg hd, if_neg (mt beq_iff_eq.1 hd)]
      cases hparts : splitAt c cs with
      | nil => exact absurd (ih.symm.trans hparts) (List.splitOn_ne_nil c cs)
      | cons part parts => rfl

theorem splitAt_append (c : Char) (cs rest : List Char) :
    splitAt c (cs ++ c :: rest) = splitAt c cs ++ splitAt c rest := by
  simp only [splitAt_eq_splitOn]
  exact List.splitOnP_append_cons cs rest (beq_self_eq_true c)

theorem splitAt_of_not_mem {c : Char} {cs : List Char} (h : c ∉ cs) : splitAt c cs = [cs] := by
  rw [splitAt_eq_splitOn, List.splitOn_eq_singleton h]

theorem splitAt_intercalate {c : Char} {parts : List (List Char)} (hne : parts ≠ []) (h : ∀ p ∈ parts, c ∉ p) :
    splitAt c ([c].intercalate parts) = parts := by
  rw [splitAt_eq_splitOn, List.splitOn_intercalate c h hne]

theorem intercalate_splitAt (c : Char) (cs : List Char) : [c].intercalate (splitAt c cs) = cs := by
  rw [splitAt_eq_splitOn, List.intercalate_splitOn]

theorem of_mem_splitAt {c : Char} {cs part : List Char} (h : part ∈ splitAt c cs) :
    c ∉ part ∧ ∀ d ∈ part, d ∈ cs := by
  induction cs generalizing part with
  | nil =>
    obtain rfl := List.mem_singleton.1 h
    simp
  | cons d cs ih =>
    have hin {other : List Char} (hmem : other ∈ splitAt c cs) : c ∉ other ∧ ∀ e ∈ other, e ∈ d :: cs :=
      ⟨(ih hmem).1, fun e he => List.mem_cons_of_mem d ((ih hmem).2 e he)⟩
    rw [splitAt] at h
    split at h
    · obtain rfl | hmem := List.mem_cons.1 h
      · simp
      · exact hin hmem
    · rename_i hd
      split at h
      · obtain rfl := List.mem_singleton.1 h
        simp [Ne.symm hd]
      · rename_i first parts hsplit
        rw [hsplit] at hin
        obtain rfl | hmem := List.mem_cons.1 h
        · obtain ⟨hc, hsub⟩ := hin List.mem_cons_self
          simpa [Ne.symm hd, hc] using hsub
        · exact hin (List.mem_cons_of_mem first hmem)

end WikiPress.Text
