/-
Where the paths of a project lie.

A store finds a file by the components of the path that it is given.  For a path of a
project these are the components of the base followed by its names, whatever the spelling
of the base: empty, relative, with points in it or ending in a slash.  So two paths of a
project never lie at one place, which is what lets a change of one file leave the others
alone.
-/
import Mathlib.Data.List.Basic
import Upkeep.ProjectPath

namespace Upkeep

namespace Component

theorem ofPart?_ordinary {n : String} (h : Ordinary n) :
    ofPart? n.toList = some (.name n) := by
  obtain ⟨hempty, hpoint, hpoints, -, -⟩ := h
  have h1 : n.toList ≠ [] := fun hc => hempty (by simpa using hc)
  have h2 : n.toList ≠ ['.'] := fun hc => hpoint (String.toList_injective (by simpa using hc))
  have h3 : n.toList ≠ ['.', '.'] := fun hc => hpoints (String.toList_injective (by simpa using hc))
  unfold ofPart?
  rw [if_neg (by simp [h1, h2]), if_neg h3, String.ofList_toList]

/-- Only an empty part and a single point mean nothing. -/
theorem ofPart?_eq_none {part : List Char} (h : ofPart? part = none) :
    part = [] ∨ part = ['.'] := by
  unfold ofPart? at h
  split at h
  next hpart => exact hpart
  next => split at h <;> cases h

/-- Parts between slashes are steps up and names. -/
theorem eq_of_ofPart? {part : List Char} {c : Component} (h : ofPart? part = some c) :
    c = .up ∨ ∃ n, c = .name n := by
  unfold ofPart? at h
  split at h
  · cases h
  · split at h
    · cases h
      exact .inl rfl
    · cases h
      exact .inr ⟨_, rfl⟩

end Component

namespace Path

/-- What stands in front of the parts of a path. -/
def lead (cs : List Char) : List Component :=
  if cs.head? = some '/' then [.root]
  else if (cs.splitOn '/').head? = some ['.'] then [.here]
  else []

theorem components_eq (path : String) :
    components path = lead path.toList ++ ofParts (path.toList.splitOn '/') := by
  unfold components lead
  simp only
  split
  · rfl
  · split <;> rfl

/-- A path begins at the root of the file system, with a point, or with its parts. -/
theorem lead_cases (cs : List Char) : lead cs = [.root] ∨ lead cs = [.here] ∨ lead cs = [] := by
  unfold lead
  split
  · exact .inl rfl
  · split
    · exact .inr (.inl rfl)
    · exact .inr (.inr rfl)

theorem root_notMem_ofParts (parts : List (List Char)) : .root ∉ ofParts parts := by
  unfold ofParts
  rw [List.mem_filterMap]
  rintro ⟨part, -, hpart⟩
  rcases Component.eq_of_ofPart? hpart with hup | ⟨n, hname⟩
  · cases hup
  · cases hname

/-- What stands behind a slash has no say in the beginning of a path. -/
theorem lead_append_slash (cs ds es : List Char) :
    lead (cs ++ '/' :: ds) = lead (cs ++ '/' :: es) := by
  have hsplit : ∀ ds : List Char,
      ((cs ++ '/' :: ds).splitOn '/').head? = (cs.splitOn '/').head? := by
    intro ds
    rw [List.splitOn_append_cons_self]
    exact List.head?_append_of_ne_nil _ (List.splitOn_ne_nil '/' cs)
  unfold lead
  rw [hsplit, hsplit]
  cases cs <;> rfl

theorem ofParts_append (ps qs : List (List Char)) : ofParts (ps ++ qs) = ofParts ps ++ ofParts qs :=
  List.filterMap_append

/-- A path that goes on behind a slash goes on with the components of the rest. -/
theorem components_append_slash {base rest : List Char} (hbase : base ≠ []) :
    components (String.ofList (base ++ '/' :: rest)) =
      components (String.ofList base) ++ ofParts (rest.splitOn '/') := by
  have hlead : lead (base ++ '/' :: rest) = lead base := by
    unfold lead
    rw [List.splitOn_append_cons_self,
      List.head?_append_of_ne_nil _ (List.splitOn_ne_nil '/' base),
      List.head?_append_of_ne_nil _ hbase]
  rw [components_eq, components_eq, String.toList_ofList, String.toList_ofList, hlead,
    List.splitOn_append_cons_self, ofParts_append, List.append_assoc]

/-- A slash at the end of a path means nothing. -/
theorem components_append_slash_end (base rest : List Char) :
    components (String.ofList (base ++ '/' :: rest)) =
      components (String.ofList (base ++ ['/'])) ++ ofParts (rest.splitOn '/') := by
  rw [components_eq, components_eq, String.toList_ofList, String.toList_ofList,
    lead_append_slash base rest [], List.splitOn_append_cons_self, List.splitOn_append_cons_self,
    ofParts_append, ofParts_append, List.append_assoc, List.append_assoc]
  rfl

end Path

namespace ProjectPath

/-- The parts of a written path are its names. -/
theorem splitOn_text {p : ProjectPath} (h : p.names ≠ []) :
    p.text.toList.splitOn '/' = p.names.map String.toList := by
  unfold text
  rw [String.toList_intercalate]
  refine List.splitOn_intercalate '/' ?_ (by simpa using h)
  intro part hpart
  obtain ⟨n, hn, rfl⟩ := List.mem_map.mp hpart
  exact (p.ordinary n hn).2.2.2.1

theorem ofParts_names (p : ProjectPath) :
    Path.ofParts (p.names.map String.toList) = p.names.map .name := by
  unfold Path.ofParts
  rw [List.filterMap_map]
  exact List.filterMap_eq_map_iff_forall_eq_some.mpr fun n hn =>
    Component.ofPart?_ordinary (p.ordinary n hn)

/-- A written path is not empty, starts with no slash and has no point to start from. -/
theorem lead_text {p : ProjectPath} (h : p.names ≠ []) :
    p.text.toList ≠ [] ∧ p.text.toList.head? ≠ some '/' ∧ Path.lead p.text.toList = [] := by
  obtain ⟨n, ns, hnames⟩ := List.exists_cons_of_ne_nil h
  obtain ⟨hempty, hpoint, -⟩ := p.ordinary n (by simp [hnames])
  have hsplit : p.text.toList.splitOn '/' = n.toList :: ns.map String.toList := by
    rw [splitOn_text h, hnames, List.map_cons]
  have hnil : p.text.toList ≠ [] := by
    intro hc
    rw [hc, List.splitOn_nil] at hsplit
    exact hempty (by simpa using (List.cons.inj hsplit).1.symm)
  have hslash : p.text.toList.head? ≠ some '/' := by
    intro hc
    obtain ⟨cs, hcs⟩ := List.head?_eq_some_iff.mp hc
    rw [hcs, ← List.nil_append ('/' :: cs), List.splitOn_append_cons_self] at hsplit
    exact hempty (by simpa using (List.cons.inj hsplit).1.symm)
  refine ⟨hnil, hslash, ?_⟩
  unfold Path.lead
  rw [if_neg hslash, hsplit, if_neg]
  intro hc
  exact hpoint (String.toList_injective (by simpa using hc))

/-- **A path of a project lies at the components of the base followed by its names.** -/
theorem components_locate (base : String) (p : ProjectPath) :
    Path.components (p.locate base) = Path.components base ++ p.names.map .name := by
  unfold locate
  by_cases hnames : p.names = []
  · rw [if_pos hnames, hnames, List.map_nil, List.append_nil]
  rw [if_neg hnames]
  obtain ⟨-, hslash, hlead⟩ := lead_text hnames
  have htext : Path.ofParts (p.text.toList.splitOn '/') = p.names.map .name := by
    rw [splitOn_text hnames, ofParts_names]
  unfold Path.join Path.isAbsolute
  rw [if_neg (by simpa using hslash)]
  by_cases hbase : base = ""
  · rw [if_pos hbase, hbase, Path.components_eq, hlead, htext]
    rfl
  rw [if_neg hbase]
  split
  next hend =>
    -- The slash between base and path is the one that the base ends in.
    obtain ⟨cs, hcs⟩ := List.getLast?_eq_some_iff.mp hend
    have hjoined : base ++ p.text = String.ofList (cs ++ '/' :: p.text.toList) := by
      apply String.toList_injective
      simp [hcs]
    have hself : base = String.ofList (cs ++ ['/']) := by rw [← hcs, String.ofList_toList]
    rw [hjoined, Path.components_append_slash_end, ← hself, htext]
  next =>
    have hjoined : base ++ "/" ++ p.text = String.ofList (base.toList ++ '/' :: p.text.toList) := by
      apply String.toList_injective
      simp
    rw [hjoined, Path.components_append_slash (by simpa using hbase), String.ofList_toList, htext]

theorem components_join (base : String) {n : String} (h : Ordinary n) :
    Path.components (Path.join base n) = Path.components base ++ [.name n] := by
  have hlocate := components_locate base ⟨[n], by simpa using h⟩
  have htext : (⟨[n], by simpa using h⟩ : ProjectPath).text = n := String.intercalate_singleton
  unfold locate at hlocate
  rwa [if_neg (List.cons_ne_nil n []), htext] at hlocate

/-- Every character of a written path is a slash or stands in one of the names. -/
theorem mem_text {p : ProjectPath} {c : Char} (h : c ∈ p.text.toList) :
    c = '/' ∨ ∃ n ∈ p.names, c ∈ n.toList := by
  unfold text at h
  rw [String.toList_intercalate] at h
  rcases Text.mem_intercalate h with hslash | ⟨part, hpart, hc⟩
  · exact .inl (by simpa using hslash)
  · obtain ⟨n, hn, rfl⟩ := List.mem_map.mp hpart
    exact .inr ⟨n, hn, hc⟩

theorem unify_of_notMem {spelling : String} (h : '\\' ∉ spelling.toList) :
    unify spelling = spelling.toList := by
  unfold unify
  refine List.map_congr_left (g := id) ?_ |>.trans (List.map_id _)
  intro c hc
  rw [if_neg]
  · rfl
  · rintro rfl
    exact h hc

/-- A written path has no backslash to make a slash of. -/
theorem unify_text (p : ProjectPath) : unify p.text = p.text.toList := by
  refine unify_of_notMem fun hc => ?_
  rcases mem_text hc with hslash | ⟨n, hn, hmem⟩
  · exact absurd hslash (by decide)
  · exact (p.ordinary n hn).2.2.2.2 hmem

theorem names_resolve (base spelling : String) :
    (resolve base spelling).names = follow (relative base spelling) := by
  unfold resolve
  rfl

theorem follow_names (ns : List String) : follow (ns.map .name) = ns := by
  have hfold : ∀ names : List String, (ns.map Component.name).foldl step names = names ++ ns := by
    induction ns with
    | nil => intro names; simp
    | cons n ns ih =>
        intro names
        show (ns.map Component.name).foldl step (names ++ [n]) = names ++ n :: ns
        rw [ih, List.append_assoc]
        rfl
  exact hfold []

theorem name_injective : Function.Injective Component.name := fun _ _ h => Component.name.inj h

@[ext] theorem ext_names {p q : ProjectPath} (h : p.names = q.names) : p = q := by
  cases p
  cases q
  simp_all

/-- The written form of a path means its names. -/
theorem components_text (p : ProjectPath) : Path.components p.text = p.names.map .name := by
  have hempty : Path.join "" p.text = p.text := by
    unfold Path.join Path.isAbsolute
    by_cases hnames : p.names = []
    · have htext : p.text = "" := by
        unfold text
        rw [hnames]
        rfl
      rw [htext]
      rfl
    · rw [if_neg (by simpa using (lead_text hnames).2.1), if_pos rfl]
  have hlocate : p.locate "" = p.text := by
    unfold locate
    split
    next hnames =>
      unfold text
      rw [hnames]
      rfl
    next => exact hempty
  rw [← hlocate, components_locate]
  rfl

/-- **The written form of a path is read as that path**, whatever the base of the project. -/
theorem resolve_text (base : String) (p : ProjectPath) : resolve base p.text = p := by
  have hrelative : relative base p.text = p.names.map .name := by
    unfold relative
    rw [unify_text, String.ofList_toList, components_text]
    simp only
    rw [if_neg]
    cases p.names <;> simp
  refine ext_names ?_
  rw [names_resolve, hrelative, follow_names]

theorem text_injective {p q : ProjectPath} (h : p.text = q.text) : p = q := by
  rw [← resolve_text "" p, h, resolve_text]

/-- Two paths of a project at one place are one path. -/
theorem locate_injective {base : String} {p q : ProjectPath}
    (h : Path.components (p.locate base) = Path.components (q.locate base)) : p = q := by
  rw [components_locate, components_locate] at h
  exact ext_names (List.map_injective_iff.mpr name_injective (List.append_cancel_left h))

end ProjectPath

end Upkeep
