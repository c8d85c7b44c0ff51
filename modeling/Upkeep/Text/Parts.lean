/-
Parts of a text between separators.

A text is cut at a separator with `List.splitOn` and put together again with
`List.intercalate`.  Here stand the facts about a single part that core does not state.
-/

namespace Upkeep.Text

/-- No part between separators holds the separator. -/
theorem notMem_of_mem_splitOn {sep : Char} {cs part : List Char} (h : part ∈ cs.splitOn sep) :
    sep ∉ part := by
  induction cs generalizing part with
  | nil => simp at h; simp [h]
  | cons c cs ih =>
    rw [List.splitOn_cons_eq_if_modifyHead] at h
    split at h
    · rcases List.mem_cons.1 h with rfl | h
      · simp
      · exact ih h
    · cases hs : cs.splitOn sep with
      | nil => exact absurd hs (List.splitOn_ne_nil sep cs)
      | cons first rest =>
        rw [hs] at h ih
        simp only [List.modifyHead_cons, List.mem_cons] at h
        rcases h with rfl | h
        · have : sep ∉ first := ih (by simp)
          grind
        · exact ih (by simp [h])

/-- Every character of a part between separators is a character of the text. -/
theorem mem_of_mem_splitOn {sep c : Char} {cs part : List Char} (h : part ∈ cs.splitOn sep)
    (hc : c ∈ part) : c ∈ cs := by
  induction cs generalizing part with
  | nil => simp at h; simp [h] at hc
  | cons d cs ih =>
    rw [List.splitOn_cons_eq_if_modifyHead] at h
    split at h
    · rcases List.mem_cons.1 h with rfl | h
      · simp at hc
      · exact List.mem_cons_of_mem _ (ih h hc)
    · cases hs : cs.splitOn sep with
      | nil => exact absurd hs (List.splitOn_ne_nil sep cs)
      | cons first rest =>
        rw [hs] at h ih
        simp only [List.modifyHead_cons, List.mem_cons] at h
        rcases h with rfl | h
        · rcases List.mem_cons.1 hc with rfl | hc
          · simp
          · have hfirst : c ∈ cs := ih List.mem_cons_self hc
            exact List.mem_cons_of_mem _ hfirst
        · exact List.mem_cons_of_mem _ (ih (by simp [h]) hc)

/-- Every character of parts that are put together is one of the separator or of a part. -/
theorem mem_intercalate {sep : List Char} {parts : List (List Char)} {c : Char}
    (h : c ∈ sep.intercalate parts) : c ∈ sep ∨ ∃ part ∈ parts, c ∈ part := by
  induction parts with
  | nil => simp at h
  | cons first rest ih =>
    by_cases hrest : rest = []
    · subst hrest
      rw [List.intercalate_singleton] at h
      exact .inr ⟨first, by simp, h⟩
    · rw [List.intercalate_cons_of_ne_nil hrest, List.mem_append, List.mem_append] at h
      rcases h with (hfirst | hsep) | hmem
      · exact .inr ⟨first, by simp, hfirst⟩
      · exact .inl hsep
      · refine (ih hmem).imp_right ?_
        rintro ⟨part, hpart, hc⟩
        exact ⟨part, by simp [hpart], hc⟩

/-- What stands in front of the first separator, and, where there is one, what stands behind
it. -/
def cut (sep : Char) (cs : List Char) : List Char × Option (List Char) :=
  (cs.takeWhile (· ≠ sep), (cs.dropWhile (· ≠ sep)).tail?)

theorem cut_of_notMem {sep : Char} {cs : List Char} (h : sep ∉ cs) : cut sep cs = (cs, none) := by
  induction cs with
  | nil => rfl
  | cons c cs ih => grind [cut, List.takeWhile_cons, List.dropWhile_cons]

theorem cut_append {sep : Char} {cs ds : List Char} (h : sep ∉ cs) :
    cut sep (cs ++ sep :: ds) = (cs, some ds) := by
  induction cs with
  | nil => simp [cut]
  | cons c cs ih => grind [cut, List.takeWhile_cons, List.dropWhile_cons]

/-- The lines of a text: what stands between its line feeds. -/
def lines (s : String) : List (List Char) := s.toList.splitOn '\n'

/-- The text that has these lines. -/
def unlines (ls : List (List Char)) : String := String.ofList (List.intercalate ['\n'] ls)

end Upkeep.Text
