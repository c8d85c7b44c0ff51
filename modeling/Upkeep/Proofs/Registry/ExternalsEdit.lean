/-
The edit of the externals.

An edit drops the elements for `@grafana/ui` and puts at most one element in, at a place that
`Place` describes without counting lines: behind the first element for `@grafana/data`, or in
front of the line that closes the first list of externals.  The line before that place may
gain a comma, and nothing else of the source is touched.

The positions are found among the lines that are left, so they are lines of that list, and an
edit that changes nothing is never returned.
-/
import Upkeep.Registry.BundleGrafanaUi
import Upkeep.Proofs.Text.Lines

namespace Upkeep.BundleGrafanaUi

variable {source new : String} {lines front rest : List Line} {previous line : Line}

/-! ### Places -/

/-- An entry is the first of its kind, with entries of no such kind before it. -/
theorem findIdx?_eq_some_iff_append {p : α → Bool} {xs : List α} {i : Nat} :
    xs.findIdx? p = some i ↔ ∃ before x after, xs = before ++ x :: after ∧ before.length = i ∧
      p x = true ∧ ∀ y ∈ before, p y = false := by
  constructor
  · intro h
    obtain ⟨hi, hx, hbefore⟩ := List.findIdx?_eq_some_iff_getElem.mp h
    refine ⟨xs.take i, xs[i], xs.drop (i + 1), ?_, List.length_take_of_le hi.le, hx, ?_⟩
    · rw [← List.drop_eq_getElem_cons hi, List.take_append_drop]
    · intro y hy
      obtain ⟨j, hj, rfl⟩ := List.mem_take_iff_getElem.mp hy
      simpa using hbefore j (by omega)
  · rintro ⟨before, x, after, rfl, rfl, hx, hbefore⟩
    rw [List.findIdx?_append, List.findIdx?_eq_none_iff.mpr hbefore, List.findIdx?_cons, if_pos hx]
    simp

/-- A list of externals is open behind these lines: no line closes it behind the first line
that opens one. -/
def IsOpen (lines : List Line) : Prop :=
  ∃ before opening between, lines = before ++ opening :: between ∧
    (∀ line ∈ before, opensExternals line = false) ∧ opensExternals opening = true ∧
    ∀ line ∈ between, closesList line = false

/-- The new element belongs behind this line, with these lines before it and after it. -/
inductive Place : List Line → Line → List Line → Prop
  | behindData {front rest : List Line} {previous : Line}
      (hfirst : ∀ line ∈ front, isDataElement line = false)
      (hdata : isDataElement previous = true) : Place front previous rest
  | beforeEnd {front rest : List Line} {previous : Line}
      (hnone : ∀ line ∈ front ++ previous :: rest, isDataElement line = false)
      (hopen : IsOpen (front ++ [previous]))
      (hcloses : ∃ closing ∈ rest.head?, closesList closing = true) : Place front previous rest

/-- Without an element for `@grafana/data` the point is the end of the first list. -/
theorem insertionPoint?_of_noData (h : ∀ line ∈ lines, isDataElement line = false) :
    insertionPoint? lines =
      (lines.findIdx? opensExternals).bind fun start =>
        ((lines.drop (start + 1)).findIdx? closesList).map fun offset => start + 1 + offset := by
  unfold insertionPoint?
  rw [List.findIdx?_eq_none_iff.mpr h]
  cases lines.findIdx? opensExternals with
  | none => rfl
  | some start =>
      show (((lines.drop (start + 1)).findIdx? closesList).bind fun offset =>
        some (start + 1 + offset)) = _
      rw [Option.bind_some, Option.map_eq_bind]
      rfl

theorem insertionPoint?_of_place (h : Place front previous rest) :
    insertionPoint? (front ++ previous :: rest) = some (front.length + 1) := by
  cases h with
  | behindData hfirst hdata =>
      have hfind : (front ++ previous :: rest).findIdx? isDataElement = some front.length :=
        findIdx?_eq_some_iff_append.mpr ⟨front, previous, rest, rfl, rfl, hdata, hfirst⟩
      unfold insertionPoint?
      rw [hfind]
  | beforeEnd hnone hopen hcloses =>
      obtain ⟨before, opening, between, hsplit, hbefore, hopens, hbetween⟩ := hopen
      obtain ⟨closing, hhead, hcloses⟩ := hcloses
      obtain ⟨rest, rfl⟩ := List.head?_eq_some_iff.mp hhead
      have hlines : front ++ previous :: closing :: rest =
          before ++ opening :: (between ++ closing :: rest) := by
        rw [List.append_cons, hsplit, List.append_assoc, List.cons_append]
      have hlength := congrArg List.length hsplit
      simp only [List.length_append, List.length_cons, List.length_nil] at hlength
      have hstart : (front ++ previous :: closing :: rest).findIdx? opensExternals =
          some before.length :=
        findIdx?_eq_some_iff_append.mpr ⟨_, _, _, hlines, rfl, hopens, hbefore⟩
      have hdrop : (front ++ previous :: closing :: rest).drop (before.length + 1) =
          between ++ closing :: rest := by
        rw [hlines, List.append_cons, List.drop_left' (by simp)]
      have hend : (between ++ closing :: rest).findIdx? closesList = some between.length :=
        findIdx?_eq_some_iff_append.mpr ⟨_, _, _, rfl, rfl, hcloses, hbetween⟩
      rw [insertionPoint?_of_noData hnone, hstart, Option.bind_some, hdrop, hend, Option.map_some]
      congr 1
      omega

/-- **A point among lines is a place**, and lies behind a line of theirs. -/
theorem place_of_insertionPoint? {point : Nat} (h : insertionPoint? lines = some point) :
    ∃ front previous rest, lines = front ++ previous :: rest ∧ point = front.length + 1 ∧
      Place front previous rest := by
  cases hdata : lines.findIdx? isDataElement with
  | some i =>
      obtain ⟨front, previous, rest, rfl, rfl, hprevious, hfront⟩ :=
        findIdx?_eq_some_iff_append.mp hdata
      unfold insertionPoint? at h
      rw [hdata] at h
      cases h
      exact ⟨front, previous, rest, rfl, rfl, .behindData hfront hprevious⟩
  | none =>
      have hnone := List.findIdx?_eq_none_iff.mp hdata
      rw [insertionPoint?_of_noData hnone] at h
      obtain ⟨start, hstart, h⟩ := Option.bind_eq_some_iff.mp h
      obtain ⟨offset, hoffset, rfl⟩ := Option.map_eq_some_iff.mp h
      obtain ⟨before, opening, after, rfl, rfl, hopens, hbefore⟩ :=
        findIdx?_eq_some_iff_append.mp hstart
      rw [List.append_cons, List.drop_left' (by simp)] at hoffset
      obtain ⟨between, closing, rest, rfl, rfl, hcloses, hbetween⟩ :=
        findIdx?_eq_some_iff_append.mp hoffset
      -- The line before the end of the list is the last one of those that are open.
      obtain ⟨front, previous, hsplit⟩ : ∃ front previous,
          before ++ opening :: between = front ++ [previous] :=
        ⟨_, _, (List.dropLast_concat_getLast (by simp)).symm⟩
      have hlines : before ++ opening :: (between ++ closing :: rest) =
          front ++ previous :: closing :: rest := by
        rw [← List.cons_append, ← List.append_assoc, hsplit, ← List.append_cons]
      have hlength := congrArg List.length hsplit
      simp only [List.length_append, List.length_cons, List.length_nil] at hlength
      refine ⟨front, previous, closing :: rest, hlines, by omega, .beforeEnd ?_ ?_ ?_⟩
      · rwa [← hlines]
      · exact ⟨before, opening, between, hsplit.symm, hbefore, hopens, hbetween⟩
      · exact ⟨closing, rfl, hcloses⟩

/-- What is known of the positions that the edit goes by: they are lines of the list, or its
end. -/
theorem insertionPoint?_bounds {point : Nat} (h : insertionPoint? lines = some point) :
    0 < point ∧ point ≤ lines.length := by
  obtain ⟨front, previous, rest, rfl, rfl, -⟩ := place_of_insertionPoint? h
  simp

theorem findIdx?_bound {p : Line → Bool} {start : Nat} (h : lines.findIdx? p = some start) :
    start + 1 ≤ lines.length := by
  obtain ⟨before, x, after, rfl, rfl, -, -⟩ := findIdx?_eq_some_iff_append.mp h
  simp

/-! ### The lines of an edited text -/

/-- The line as it is, or with one comma behind its last character that is not blank. -/
inductive Punctuated : Line → Line → Prop
  | same (line : Line) : Punctuated line line
  | comma {start blanks : Line} {c : Char} (hc : Text.isBlank c = false)
      (hblanks : ∀ d ∈ blanks, Text.isBlank d = true) :
      Punctuated (start ++ c :: blanks) (start ++ c :: ',' :: blanks)

theorem punctuated_withComma (line : Line) : Punctuated line (withComma line) := by
  unfold withComma
  simp only
  split
  · exact .same line
  next hneeds =>
    obtain ⟨start, c, hsplit⟩ : ∃ start c, Text.trimEnd line = start ++ [c] :=
      ⟨_, _, (List.dropLast_concat_getLast fun h => hneeds (by simp [h])).symm⟩
    have hc : Text.isBlank c = false :=
      Text.isBlank_getLast_trimEnd line (by rw [hsplit]; simp)
    have hline := Text.trimEnd_append_drop line
    have hcomma : Punctuated (start ++ c :: line.drop (Text.trimEnd line).length)
        (start ++ c :: ',' :: line.drop (Text.trimEnd line).length) :=
      .comma hc fun d hd => Text.isBlank_of_mem_drop_trimEnd line hd
    rw [List.append_cons, ← hsplit, hline] at hcomma
    rwa [List.append_cons, ← hsplit] at hcomma

/-! ### Elements -/

/-- Blanks in front of a line do not change what element it holds. -/
theorem isElement_append {element blanks : List Char} (h : ∀ d ∈ blanks, Text.isBlank d = true)
    (line : Line) : isElement element (blanks ++ line) = isElement element line := by
  unfold isElement Text.trim Text.trimStart
  rw [List.dropWhile_append_of_pos h]

/-- A comma behind a line that is no element makes none of it. -/
theorem isUiElement_of_punctuated {line' : Line} (h : Punctuated line line')
    (hline : isUiElement line = false) : isUiElement line' = false := by
  cases h with
  | same => exact hline
  | @comma start blanks c hc hblanks =>
      have htrim : Text.trim (start ++ c :: blanks) = Text.trimStart start ++ [c] := by
        rw [List.append_cons, Text.trim_append_blanks hblanks, Text.trim_concat hc]
      have htrim' : Text.trim (start ++ c :: ',' :: blanks) =
          Text.trim (start ++ c :: blanks) ++ [','] := by
        rw [htrim, List.append_cons, List.append_cons, Text.trim_append_blanks hblanks,
          Text.trim_concat (by decide), Text.trimStart_concat hc]
      unfold isUiElement isElement at hline ⊢
      simp only [Bool.or_eq_false_iff, decide_eq_false_iff_not] at hline ⊢
      rw [htrim']
      refine ⟨fun heq => ?_, fun heq => hline.1 (List.append_cancel_right heq)⟩
      have hlast := congrArg List.getLast? heq
      rw [List.getLast?_concat] at hlast
      exact absurd hlast (by decide)

theorem isUiElement_newElement : isUiElement newElement = false := by decide

/-- The blanks in front of the new element. -/
def indentBehind (previous : Line) (rest : List Line) : List Char :=
  if opensExternals previous then Text.indent (rest.headD []) ++ [' ', ' ']
  else Text.indent previous

theorem isBlank_of_mem_indent {c : Char} (h : c ∈ Text.indent line) : Text.isBlank c = true :=
  List.mem_takeWhile_imp h

theorem isBlank_of_mem_indentBehind {c : Char} (h : c ∈ indentBehind previous rest) :
    Text.isBlank c = true := by
  unfold indentBehind at h
  split at h
  · rcases List.mem_append.mp h with hindent | hspace
    · exact isBlank_of_mem_indent hindent
    · have hc : c = ' ' := by simpa using hspace
      rw [hc]
      decide
  · exact isBlank_of_mem_indent h

theorem mem_of_mem_indentBehind {c : Char} (h : c ∈ indentBehind previous rest) :
    c = ' ' ∨ c ∈ previous ∨ ∃ line ∈ rest, c ∈ line := by
  unfold indentBehind at h
  split at h
  · rcases List.mem_append.mp h with hindent | hspace
    · cases rest with
      | nil => cases hindent
      | cons first rest => exact .inr (.inr ⟨first, by simp, List.takeWhile_subset _ hindent⟩)
    · exact .inl (by simpa using hspace)
  · exact .inr (.inl (List.takeWhile_subset _ h))

/-- At a place the new element stands behind the line before it. -/
theorem insertElement_append (front rest : List Line) (previous : Line) :
    insertElement (front ++ previous :: rest) (front.length + 1) =
      front ++ withComma previous :: (indentBehind previous rest ++ newElement) :: rest := by
  have hbehind : (front ++ previous :: rest).drop (front.length + 1) = rest := by
    rw [List.append_cons, List.drop_left' (by simp)]
  have hprevious : (front ++ previous :: rest).getD front.length [] = previous := by simp
  have hnext : (front ++ previous :: rest).getD (front.length + 1) [] = rest.headD [] := by
    cases rest <;> simp
  have hindent : indentAt (front ++ previous :: rest) (front.length + 1) =
      indentBehind previous rest := by
    unfold indentAt indentBehind
    rw [Nat.add_sub_cancel, hprevious, hnext]
  unfold insertElement
  rw [hindent, Nat.add_sub_cancel, hbehind, hprevious, List.take_left']
  · simp
  · rfl

/-! ### The edit -/

/-- The source has a quoted `react-inlinesvg`. -/
def Names (source : String) : Prop :=
  "'react-inlinesvg'".toList <:+: source.toList ∨ "\"react-inlinesvg\"".toList <:+: source.toList

theorem namesElement_iff : namesElement source = true ↔ Names source := by
  unfold namesElement Names Text.containsText
  rw [Bool.or_eq_true, Text.contains_iff, Text.contains_iff]

/-- The lines of a source that are no element for `@grafana/ui`. -/
def keptLines (source : String) : List Line :=
  (Text.lines source).filter fun line => !isUiElement line

theorem isUiElement_of_mem_keptLines (h : line ∈ keptLines source) : isUiElement line = false := by
  simpa using (List.mem_filter.mp h).2

theorem notMem_of_mem_keptLines (h : line ∈ keptLines source) : '\n' ∉ line :=
  Text.notMem_of_mem_lines (List.mem_filter.mp h).1

/-- The new element has a place in the source and is not there yet. -/
def Wanted (source : String) : Prop :=
  ¬Names source ∧ ∃ front previous rest,
    keptLines source = front ++ previous :: rest ∧ Place front previous rest

theorem wantedPoint?_of_wanted (hnames : ¬Names source)
    (hkept : keptLines source = front ++ previous :: rest) (hplace : Place front previous rest) :
    wantedPoint? source (keptLines source) = some (front.length + 1) := by
  unfold wantedPoint?
  rw [if_neg (mt namesElement_iff.mp hnames), hkept, insertionPoint?_of_place hplace]

theorem wantedPoint?_of_not_wanted (h : ¬Wanted source) :
    wantedPoint? source (keptLines source) = none := by
  unfold wantedPoint?
  by_cases hnames : namesElement source = true
  · rw [if_pos hnames]
  · rw [if_neg hnames, Option.eq_none_iff_forall_ne_some]
    intro point hpoint
    obtain ⟨front, previous, rest, hkept, -, hplace⟩ := place_of_insertionPoint? hpoint
    exact h ⟨mt namesElement_iff.mpr hnames, front, previous, rest, hkept, hplace⟩

/-- The lines of an edited source: those that are kept, and the new element where it is
wanted. -/
inductive EditedLines (source : String) : List Line → Prop
  | dropped (hplace : ¬Wanted source) : EditedLines source (keptLines source)
  | inserted {front rest : List Line} {previous punctuated : Line} (hnames : ¬Names source)
      (hkept : keptLines source = front ++ previous :: rest) (hplace : Place front previous rest)
      (hcomma : Punctuated previous punctuated) :
      EditedLines source
        (front ++ punctuated :: (indentBehind previous rest ++ newElement) :: rest)

/-- The lines of an edited source are lines, and none is an element for `@grafana/ui`. -/
theorem EditedLines.sound (h : EditedLines source lines) :
    ∀ line ∈ lines, '\n' ∉ line ∧ isUiElement line = false := by
  cases h with
  | dropped =>
      exact fun line hline => ⟨notMem_of_mem_keptLines hline, isUiElement_of_mem_keptLines hline⟩
  | @inserted front rest previous punctuated hnames hkept hplace hcomma =>
      have hold : ∀ line ∈ front ++ previous :: rest, '\n' ∉ line ∧ isUiElement line = false := by
        rw [← hkept]
        exact fun line hline => ⟨notMem_of_mem_keptLines hline, isUiElement_of_mem_keptLines hline⟩
      obtain ⟨hprevious, hui⟩ := hold previous (by simp)
      intro line hline
      simp only [List.mem_append, List.mem_cons] at hline
      rcases hline with hfront | rfl | rfl | hrest
      · exact hold line (by simp [hfront])
      · refine ⟨?_, isUiElement_of_punctuated hcomma hui⟩
        cases hcomma with
        | same => exact hprevious
        | comma => simpa using hprevious
      · refine ⟨fun hfeed => ?_, ?_⟩
        · rcases List.mem_append.mp hfeed with hindent | hnew
          · rcases mem_of_mem_indentBehind hindent with hspace | hmem | ⟨next, hnext, hmem⟩
            · cases hspace
            · exact hprevious hmem
            · exact (hold next (by simp [hnext])).1 hmem
          · exact absurd hnew (by decide)
        · unfold isUiElement
          rw [isElement_append fun d hd => isBlank_of_mem_indentBehind hd]
          exact isUiElement_newElement
      · exact hold line (by simp [hrest])

theorem edit?_of_wanted (hnames : ¬Names source)
    (hkept : keptLines source = front ++ previous :: rest) (hplace : Place front previous rest) :
    edit? source = some (Text.unlines
      (front ++ withComma previous :: (indentBehind previous rest ++ newElement) :: rest)) := by
  have hpoint := wantedPoint?_of_wanted hnames hkept hplace
  unfold edit?
  unfold keptLines at hpoint hkept
  simp only [hpoint]
  rw [hkept, insertElement_append]

theorem edit?_of_not_wanted (h : ¬Wanted source) :
    edit? source = if (keptLines source).length = (Text.lines source).length then none
      else some (Text.unlines (keptLines source)) := by
  have hpoint := wantedPoint?_of_not_wanted h
  unfold edit?
  unfold keptLines at hpoint ⊢
  simp only [hpoint]

theorem length_keptLines : (keptLines source).length = (Text.lines source).length ↔
    ∀ line ∈ Text.lines source, isUiElement line = false := by
  unfold keptLines
  rw [List.length_filter_eq_length_iff]
  simp

/-- Nothing is edited exactly where no line goes and none comes. -/
theorem edit?_eq_none_iff : edit? source = none ↔
    (∀ line ∈ Text.lines source, isUiElement line = false) ∧ ¬Wanted source := by
  by_cases hwanted : Wanted source
  · obtain ⟨hnames, front, previous, rest, hkept, hplace⟩ := hwanted
    rw [edit?_of_wanted hnames hkept hplace]
    exact iff_of_false (by simp) fun h => h.2 ⟨hnames, front, previous, rest, hkept, hplace⟩
  · rw [edit?_of_not_wanted hwanted, ← length_keptLines]
    simp [hwanted]

theorem editedLines_of_edit? (h : edit? source = some new) :
    ∃ lines, new = Text.unlines lines ∧ EditedLines source lines := by
  by_cases hwanted : Wanted source
  · obtain ⟨hnames, front, previous, rest, hkept, hplace⟩ := hwanted
    rw [edit?_of_wanted hnames hkept hplace] at h
    exact ⟨_, (Option.some.inj h).symm,
      .inserted hnames hkept hplace (punctuated_withComma previous)⟩
  · rw [edit?_of_not_wanted hwanted] at h
    split at h
    · cases h
    · exact ⟨_, (Option.some.inj h).symm, .dropped hwanted⟩

/-- An edited text has no line for `@grafana/ui`; where nothing is left of it, it is empty. -/
theorem isUiElement_of_edited (h : EditedLines source lines) :
    ∀ line ∈ Text.lines (Text.unlines lines), isUiElement line = false := by
  by_cases hnil : lines = []
  · rw [hnil]
    decide
  · rw [Text.lines_unlines hnil fun line hline => (h.sound line hline).1]
    exact fun line hline => (h.sound line hline).2

/-- **An edit that is returned is a change**: a line is gone, or there is one more. -/
theorem ne_of_edit? (h : edit? source = some new) : new ≠ source := by
  obtain ⟨lines, rfl, hedited⟩ := editedLines_of_edit? h
  have hui := isUiElement_of_edited hedited
  rintro hsame
  rw [hsame] at hui
  have hwanted : Wanted source := by
    by_contra hnot
    rw [edit?_eq_none_iff.mpr ⟨hui, hnot⟩] at h
    cases h
  obtain ⟨hnames, front, previous, rest, hkept, hplace⟩ := hwanted
  rw [edit?_of_wanted hnames hkept hplace, Option.some.injEq] at h
  have hlength := congrArg List.length (congrArg Text.lines (h.trans hsame))
  have hsound := (EditedLines.inserted hnames hkept hplace (punctuated_withComma previous)).sound
  rw [Text.lines_unlines (by simp) fun line hline => (hsound line hline).1,
    ← length_keptLines.mpr hui, hkept] at hlength
  simp at hlength

/-- **The edit is minimal.**  The positions it goes by are in range; it is left out exactly
where there is no line to drop and none to insert; and a text that is returned differs from
the source, has no line for `@grafana/ui`, and is made up of the lines that are kept, with
the new element at its place where it is wanted. -/
theorem edit?_minimal (source : String) :
    (∀ lines : List Line, ∀ start, lines.findIdx? opensExternals = some start →
      start + 1 ≤ lines.length) ∧
    (∀ lines point, insertionPoint? lines = some point → 0 < point ∧ point ≤ lines.length) ∧
    (edit? source = none ↔
      (∀ line ∈ Text.lines source, isUiElement line = false) ∧ ¬Wanted source) ∧
    ∀ new, edit? source = some new →
      new ≠ source ∧ (∀ line ∈ Text.lines new, isUiElement line = false) ∧
        ∃ lines, new = Text.unlines lines ∧ (∀ line ∈ lines, '\n' ∉ line) ∧
          EditedLines source lines := by
  refine ⟨fun lines start h => findIdx?_bound h, fun lines point h => insertionPoint?_bounds h,
    edit?_eq_none_iff, fun new hnew => ⟨ne_of_edit? hnew, ?_⟩⟩
  obtain ⟨lines, rfl, hedited⟩ := editedLines_of_edit? hnew
  exact ⟨isUiElement_of_edited hedited, lines, rfl,
    fun line hline => (hedited.sound line hline).1, hedited⟩

end Upkeep.BundleGrafanaUi
