/-
The lines of a text.

A text is its lines with a line feed between.  Lines that hold no line feed are the lines of
the text they make up, so an edit of lines is read back as what it was; and a needle without
a line feed stands in a text exactly where it stands in one of its lines.
-/
import Mathlib.Data.List.TakeWhile
import Upkeep.Text.Blank
import Upkeep.Text.Parts

namespace Upkeep.Text

variable {ls : List (List Char)}

/-! ### Blanks at the ends -/

/-- A text that starts with no blank still does when it is trimmed. -/
theorem trim_start {blanks : List Char} {c : Char} (cs : List Char)
    (hblanks : ∀ d ∈ blanks, isBlank d = true) (hc : isBlank c = false) :
    ∃ ds, trim (blanks ++ c :: cs) = c :: ds := by
  have hstart : trimStart (blanks ++ c :: cs) = c :: cs := by
    unfold trimStart
    rw [List.dropWhile_append_of_pos hblanks]
    simp [List.dropWhile, hc]
  unfold trim trimEnd
  rw [hstart, List.reverse_cons, List.dropWhile_append]
  split
  · exact ⟨[], by simp [List.dropWhile, hc]⟩
  · exact ⟨((List.dropWhile isBlank cs.reverse)).reverse, by simp⟩

theorem trim_blanks {blanks : List Char} (h : ∀ d ∈ blanks, isBlank d = true) :
    trim blanks = [] := by
  have hstart : trimStart blanks = [] := List.dropWhile_eq_nil_iff.mpr h
  unfold trim
  rw [hstart]
  rfl

theorem trimEnd_append_takeWhile (cs : List Char) :
    trimEnd cs ++ (cs.reverse.takeWhile isBlank).reverse = cs := by
  unfold trimEnd
  rw [← List.reverse_append, List.takeWhile_append_dropWhile, List.reverse_reverse]

theorem trimEnd_append_drop (cs : List Char) : trimEnd cs ++ cs.drop (trimEnd cs).length = cs :=
  List.prefix_iff_eq_append.mp ⟨_, trimEnd_append_takeWhile cs⟩

/-- Only blanks stand behind what a text is trimmed to at its end. -/
theorem isBlank_of_mem_drop_trimEnd (cs : List Char) {c : Char}
    (h : c ∈ cs.drop (trimEnd cs).length) : isBlank c = true := by
  have hdrop : cs.drop (trimEnd cs).length = (cs.reverse.takeWhile isBlank).reverse :=
    List.append_cancel_left ((trimEnd_append_drop cs).trans (trimEnd_append_takeWhile cs).symm)
  rw [hdrop] at h
  exact List.mem_takeWhile_imp (List.mem_reverse.mp h)

/-- Trimmed at its end a text ends in no blank. -/
theorem isBlank_getLast_trimEnd (cs : List Char) {c : Char}
    (h : (trimEnd cs).getLast? = some c) : isBlank c = false := by
  unfold trimEnd at h
  rw [List.getLast?_reverse] at h
  have hhead := List.head?_dropWhile_not isBlank cs.reverse
  rw [h] at hhead
  exact hhead

/-- Every character of a text is blank or in what is left of it when it is trimmed. -/
theorem mem_trim_of_mem {cs : List Char} {c : Char} (h : c ∈ cs) (hc : isBlank c = false) :
    c ∈ trim cs := by
  have hstart : c ∈ trimStart cs := by
    rw [← List.takeWhile_append_dropWhile (p := isBlank) (l := cs)] at h
    rcases List.mem_append.mp h with hblank | hrest
    · rw [List.mem_takeWhile_imp hblank] at hc
      cases hc
    · exact hrest
  rw [← trimEnd_append_drop (trimStart cs)] at hstart
  rcases List.mem_append.mp hstart with hmem | hblank
  · exact hmem
  · rw [isBlank_of_mem_drop_trimEnd _ hblank] at hc
    cases hc

theorem trimStart_concat {c : Char} (hc : isBlank c = false) (cs : List Char) :
    trimStart (cs ++ [c]) = trimStart cs ++ [c] := by
  unfold trimStart
  rw [List.dropWhile_append]
  split
  next hempty => simp [List.isEmpty_iff.mp hempty, List.dropWhile, hc]
  next => rfl

theorem trim_concat {c : Char} (hc : isBlank c = false) (cs : List Char) :
    trim (cs ++ [c]) = trimStart cs ++ [c] := by
  unfold trim trimEnd
  rw [trimStart_concat hc, List.reverse_append]
  simp [hc]

/-- Blanks behind a text go when it is trimmed. -/
theorem trim_append_blanks {blanks : List Char} (h : ∀ d ∈ blanks, isBlank d = true)
    (cs : List Char) : trim (cs ++ blanks) = trim cs := by
  unfold trim
  by_cases hempty : (cs.dropWhile isBlank).isEmpty = true
  · have hboth : trimStart (cs ++ blanks) = trimStart cs := by
      unfold trimStart
      rw [List.dropWhile_append, if_pos hempty, List.isEmpty_iff.mp hempty]
      exact List.dropWhile_eq_nil_iff.mpr h
    rw [hboth]
  · have hstart : trimStart (cs ++ blanks) = trimStart cs ++ blanks := by
      unfold trimStart
      rw [List.dropWhile_append, if_neg hempty]
    unfold trimEnd
    rw [hstart, List.reverse_append,
      List.dropWhile_append_of_pos fun d hd => h d (List.mem_reverse.mp hd)]

/-- Blanks in front of a text go when it is trimmed. -/
theorem trim_blanks_append {blanks : List Char} (h : ∀ d ∈ blanks, isBlank d = true)
    (cs : List Char) : trim (blanks ++ cs) = trim cs := by
  unfold trim trimStart
  rw [List.dropWhile_append_of_pos h]

/-- A text without blanks is trimmed to itself. -/
theorem trim_of_no_blank {cs : List Char} (h : ∀ c ∈ cs, isBlank c = false) : trim cs = cs := by
  have hdrop : ∀ ds : List Char, (∀ d ∈ ds, isBlank d = false) → ds.dropWhile isBlank = ds := by
    intro ds hds
    cases ds with
    | nil => rfl
    | cons d ds => exact List.dropWhile_cons_of_neg (by simp [hds d List.mem_cons_self])
  unfold trim trimEnd trimStart
  rw [hdrop cs h, hdrop cs.reverse fun c hc => h c (List.mem_reverse.mp hc), List.reverse_reverse]

/-! ### Lines put together -/

theorem lines_ne_nil (s : String) : lines s ≠ [] := List.splitOn_ne_nil '\n' _

theorem notMem_of_mem_lines {s : String} {line : List Char} (h : line ∈ lines s) :
    '\n' ∉ line := notMem_of_mem_splitOn h

theorem lines_unlines (h : ls ≠ []) (hline : ∀ l ∈ ls, '\n' ∉ l) :
    lines (unlines ls) = ls := by
  unfold lines unlines
  rw [String.toList_ofList, List.splitOn_intercalate '\n' hline h]

theorem lines_append (s t : String) : lines (s ++ "\n" ++ t) = lines s ++ lines t := by
  unfold lines
  rw [String.toList_append, String.toList_append, List.append_assoc]
  exact List.splitOn_append_cons_self _ _

/-- Lines that are all ended make up the text and a line feed. -/
theorem flatMap_lines (s : String) : (lines s).flatMap (· ++ ['\n']) = s.toList ++ ['\n'] := by
  have hended : ∀ ls : List (List Char), ls ≠ [] →
      ls.flatMap (· ++ ['\n']) = List.intercalate ['\n'] ls ++ ['\n'] := by
    intro ls
    induction ls with
    | nil => simp
    | cons l ls ih =>
        intro _
        cases ls with
        | nil => simp
        | cons m ls =>
            rw [List.flatMap_cons, ih (by simp), List.intercalate_cons_cons]
            simp
  rw [hended _ (lines_ne_nil s)]
  unfold lines
  rw [List.intercalate_splitOn]

/-! ### Looking for a text in lines -/

variable {needle : List Char}

/-- A needle without the separator is found on one side of it. -/
theorem infix_append_cons_iff {sep : Char} {cs ds : List Char} (h : sep ∉ needle) :
    needle <:+: cs ++ sep :: ds ↔ needle <:+: cs ∨ needle <:+: ds := by
  constructor
  · intro hin
    rcases List.infix_append_iff.mp hin with hcs | hds | ⟨l₁, l₂, rfl, hl₁, hl₂⟩
    · exact .inl hcs
    · rcases List.infix_cons_iff.mp hds with hstart | hds
      · cases needle with
        | nil => exact .inl (List.nil_infix)
        | cons c cs =>
            rw [List.cons_prefix_cons] at hstart
            exact absurd (hstart.1 ▸ List.mem_cons_self) h
      · exact .inr hds
    · cases l₂ with
      | nil => exact .inl (by simpa using hl₁.isInfix)
      | cons c l₂ =>
          rw [List.cons_prefix_cons] at hl₂
          exact absurd (by simp [hl₂.1]) h
  · rintro (hcs | hds)
    · exact hcs.trans (List.prefix_append _ _).isInfix
    · exact (hds.trans (List.suffix_cons _ _).isInfix).trans (List.suffix_append _ _).isInfix

theorem infix_intercalate_iff {sep : Char} (h : sep ∉ needle) (hne : needle ≠ []) :
    needle <:+: List.intercalate [sep] ls ↔ ∃ l ∈ ls, needle <:+: l := by
  induction ls with
  | nil => simpa using hne
  | cons l ls ih =>
      cases ls with
      | nil => simp
      | cons m ls =>
          rw [List.intercalate_cons_cons, List.append_assoc, List.singleton_append,
            infix_append_cons_iff h, ih]
          simp

theorem infix_unlines_iff (h : '\n' ∉ needle) (hne : needle ≠ []) :
    needle <:+: (unlines ls).toList ↔ ∃ l ∈ ls, needle <:+: l := by
  rw [← infix_intercalate_iff h hne]
  unfold unlines
  rw [String.toList_ofList]

/-- A needle without a line feed stands in a text exactly where it stands in a line. -/
theorem infix_iff_lines (h : '\n' ∉ needle) (hne : needle ≠ []) (s : String) :
    needle <:+: s.toList ↔ ∃ line ∈ lines s, needle <:+: line := by
  rw [← infix_intercalate_iff h hne]
  unfold lines
  rw [List.intercalate_splitOn]

end Upkeep.Text
