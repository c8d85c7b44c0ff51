/-
The directories that a path goes through.

Whoever looks for a file on the way up goes by the path as it is spelled: the places that he looks
at are those to which the beginnings of the path lead.  For an absolute path without steps up these
are the directory and all above it.  For a relative path they end where it starts from, and with
steps up in it they are not even above each other.
-/
import Mathlib.Data.List.Infix
import Mathlib.Data.Set.List
import Upkeep.Proofs.Location
import Upkeep.Proofs.Store

namespace Upkeep

namespace Path

variable {cs pre : List Component} {path : String}

/-! ### The beginnings of a path -/

theorem above_of_rootless (h : .root ∉ cs) : above cs = cs.tails.map List.reverse := by
  induction cs with
  | nil => rfl
  | cons c cs ih =>
      obtain ⟨hc, hcs⟩ := not_or.mp fun hmem => h (List.mem_cons.mpr hmem)
      rw [above, ih hcs, List.tails_cons, List.map_cons]
      rintro rfl -
      exact hc rfl

theorem above_of_rooted (h : .root ∉ cs) :
    above (cs ++ [.root]) = cs.tails.map fun ds => .root :: ds.reverse := by
  induction cs with
  | nil => rfl
  | cons c cs ih =>
      obtain ⟨hc, hcs⟩ := not_or.mp fun hmem => h (List.mem_cons.mpr hmem)
      rw [List.cons_append, above, ih hcs, List.tails_cons, List.map_cons]
      · simp
      · rintro rfl -
        exact hc rfl

/-- A relative path goes through all its beginnings, longest first. -/
theorem ancestors_of_rootless (h : .root ∉ cs) : ancestors cs = cs.inits.reverse := by
  unfold ancestors
  rw [above_of_rootless (by simpa using h), List.tails_reverse, List.map_reverse, List.map_map]
  simp

/-- An absolute path goes through its beginnings down to the root. -/
theorem ancestors_of_rooted (h : .root ∉ cs) :
    ancestors (.root :: cs) = cs.inits.reverse.map (.root :: ·) := by
  unfold ancestors
  rw [List.reverse_cons, above_of_rooted (by simpa using h), List.tails_reverse, List.map_reverse,
    List.map_map]
  simp [Function.comp_def]

/-- Only at its beginning a path goes by the root of the file system. -/
theorem components_cases (path : String) :
    .root ∉ components path ∨ ∃ cs, components path = .root :: cs ∧ .root ∉ cs := by
  have hparts := root_notMem_ofParts (path.toList.splitOn '/')
  rw [components_eq]
  rcases lead_cases path.toList with h | h | h
  · exact .inr ⟨_, by rw [h]; rfl, hparts⟩
  · rw [h]
    exact .inl (by simpa using hparts)
  · rw [h]
    exact .inl hparts

/-- A relative path without steps up is a list of names, perhaps behind a point. -/
theorem components_of_relative (hrelative : isAbsolute path = false)
    (hup : .up ∉ components path) :
    ∃ ns : List String,
      components path = ns.map .name ∨ components path = .here :: ns.map .name := by
  rw [components_eq] at hup
  have hnames : ofParts (path.toList.splitOn '/') ∈ Set.range (List.map Component.name) := by
    rw [Set.range_list_map]
    intro c hc
    obtain ⟨part, -, hpart⟩ := List.mem_filterMap.mp hc
    rcases Component.eq_of_ofPart? hpart with rfl | ⟨n, rfl⟩
    · exact absurd (List.mem_append_right _ hc) hup
    · exact ⟨n, rfl⟩
  obtain ⟨ns, hns⟩ := hnames
  refine ⟨ns, ?_⟩
  have hslash : ¬path.toList.head? = some '/' := by
    simpa [isAbsolute] using hrelative
  rw [components_eq, ← hns]
  unfold lead
  rw [if_neg hslash]
  split
  · exact .inr rfl
  · exact .inl rfl

/-- What a path goes through are beginnings of it, and the root is not behind them. -/
theorem exists_append_of_mem_ancestors (h : pre ∈ ancestors (components path)) :
    ∃ rest, components path = pre ++ rest ∧ .root ∉ rest := by
  rcases components_cases path with hroot | ⟨cs, hcs, hroot⟩
  · rw [ancestors_of_rootless hroot, List.mem_reverse, List.mem_inits] at h
    obtain ⟨rest, hrest⟩ := h
    exact ⟨rest, hrest.symm, fun hmem => hroot (hrest ▸ List.mem_append_right _ hmem)⟩
  · rw [hcs, ancestors_of_rooted hroot, List.mem_map] at h
    obtain ⟨init, hinit, rfl⟩ := h
    rw [List.mem_reverse, List.mem_inits] at hinit
    obtain ⟨rest, hrest⟩ := hinit
    refine ⟨rest, ?_, fun hmem => hroot (hrest ▸ List.mem_append_right _ hmem)⟩
    rw [hcs, ← hrest]
    rfl

/-! ### The length of a path -/

theorem utf8ByteSize_intercalate_le (ts us : List String) {n m : String}
    (h : n.utf8ByteSize ≤ m.utf8ByteSize) :
    ("/".intercalate (ts ++ [n])).utf8ByteSize ≤
      ("/".intercalate (ts ++ us ++ [m])).utf8ByteSize := by
  have hlast : ∀ us : List String, m.utf8ByteSize ≤ ("/".intercalate (us ++ [m])).utf8ByteSize := by
    intro us
    cases us with
    | nil => simp
    | cons u us =>
        rw [String.intercalate_append_of_ne_nil (by simp) (by simp)]
        simp only [String.utf8ByteSize_append, String.intercalate_singleton]
        omega
  induction ts with
  | nil =>
      rw [List.nil_append, List.nil_append, String.intercalate_singleton]
      exact h.trans (hlast us)
  | cons t ts ih =>
      rw [List.cons_append, List.cons_append, List.cons_append,
        String.intercalate_cons_of_ne_nil (by simp), String.intercalate_cons_of_ne_nil (by simp)]
      simp only [String.utf8ByteSize_append]
      omega

/-- A shorter name behind a beginning of the path is no longer. -/
theorem byteSize_append_le (pre rest : List Component) {n m : String}
    (h : n.utf8ByteSize ≤ m.utf8ByteSize) :
    byteSize (pre ++ [.name n]) ≤ byteSize (pre ++ rest ++ [.name m]) := by
  have htexts : ∀ (cs : List Component) (n : String),
      ((cs ++ [Component.name n]).filter fun c => c ≠ .root).map Component.text =
        (cs.filter fun c => c ≠ .root).map Component.text ++ [n] := by
    intro cs n
    rw [List.filter_append, List.map_append]
    rfl
  have hroot : ∀ (cs : List Component) (n : String),
      Component.root ∈ cs ++ [.name n] ↔ Component.root ∈ cs := by
    simp
  have hnames := utf8ByteSize_intercalate_le ((pre.filter fun c => c ≠ .root).map Component.text)
    ((rest.filter fun c => c ≠ .root).map Component.text) h
  unfold byteSize
  simp only [htexts, hroot]
  rw [List.filter_append, List.map_append]
  refine Nat.add_le_add ?_ hnames
  by_cases hpre : Component.root ∈ pre
  · rw [if_pos hpre, if_pos (List.mem_append_left _ hpre)]
  · rw [if_neg hpre]
    exact Nat.zero_le _

theorem self_mem_ancestors (cs : List Component) : cs ∈ ancestors cs := by
  have hfirst : ∀ ds : List Component, ds.reverse ∈ above ds := by
    intro ds
    fun_cases above ds <;> simp
  unfold ancestors
  simpa using hfirst cs.reverse

end Path

namespace Disk

variable {d : Disk} {p q : Place} {cs pre : List Component} {path f : String}

/-! ### Walking part of the way -/

theorem standIn_eq_ok_iff : d.standIn p = .ok () ↔ d.isDirectoryAt p = true := by
  unfold standIn
  split
  next hdirectory => simp [hdirectory]
  next hdirectory =>
    split <;> simp [hdirectory]

theorem walk_append (cs ds : List Component) :
    d.walk p (cs ++ ds) = (d.walk p cs).bind fun q => d.walk q ds := by
  induction cs generalizing p with
  | nil => rfl
  | cons c cs ih =>
      cases c with
      | root => exact ih
      | here => exact ih
      | up =>
          simp only [List.cons_append, walk]
          cases d.standIn p with
          | error r => rfl
          | ok u => exact ih
      | name n =>
          simp only [List.cons_append, walk]
          cases d.standIn p with
          | error r => rfl
          | ok u =>
              simp only [bind, Except.bind]
              split
              · rfl
              · exact ih

/-- Who comes to a directory, and not from the root, has set out in one. -/
theorem isDirectoryAt_of_walk (hroot : .root ∉ cs) (h : d.walk p cs = .ok q)
    (hq : d.isDirectoryAt q = true) : d.isDirectoryAt p = true := by
  have hstood : ∀ {α : Type} {rest : Unit → Except Refusal α} {a : α},
      d.standIn p >>= rest = .ok a → d.isDirectoryAt p = true := by
    intro α rest a hbind
    refine standIn_eq_ok_iff.mp ?_
    cases hs : d.standIn p with
    | error r => simp [hs, bind, Except.bind] at hbind
    | ok u => rfl
  induction cs with
  | nil => exact Except.ok.inj h ▸ hq
  | cons c cs ih =>
      obtain ⟨hc, hcs⟩ := not_or.mp fun hmem => hroot (List.mem_cons.mpr hmem)
      cases c with
      | root => exact absurd rfl hc
      | here => exact ih hcs h
      | up => exact hstood h
      | name n => exact hstood h

/-! ### The files on the way -/

/-- The longest of the names that are looked for on the way up. -/
def longestName : String := "package-lock.json"

/-- The path leads to the directory, and behind it there is room for the name of a file. -/
structure Leads (d : Disk) (path : String) (p : Place) : Prop where
  place : d.destination (Path.components path) = .ok p
  directory : d.isDirectoryAt p = true
  room : Path.byteSize (Path.components path ++ [.name longestName]) ≤ pathLimit

/-- The places that a path goes through, in the order in which they are looked at. -/
def passed (d : Disk) (path : String) : List Place :=
  (Path.ancestors (Path.components path)).map (lands d.current)

theorem Leads.lands_eq (h : d.Leads path p) : lands d.current (Path.components path) = p :=
  (destination_eq_lands h.place).symm

/-- **A file in one of the directories that the path goes through is reached**, whatever the steps
by which the path goes on. -/
theorem Leads.reach_name (h : d.Leads path p) (hpre : pre ∈ Path.ancestors (Path.components path))
    (hnul : '\x00' ∉ f.toList) (hsize : f.utf8ByteSize ≤ longestName.utf8ByteSize) :
    d.reach (pre ++ [.name f]) = .ok (lands d.current pre ++ [f]) := by
  obtain ⟨rest, hcomponents, hroot⟩ := Path.exists_append_of_mem_ancestors hpre
  obtain ⟨hplace, hdirectory, hroom⟩ := h
  rw [hcomponents] at hplace hroom
  obtain ⟨hclean, -, hplace⟩ := destination_eq_ok_iff.mp hplace
  -- The walk to the end of the path stops in a directory where the beginning ends.
  rw [walk_append] at hplace
  cases hwalk : d.walk d.current pre with
  | error r => simp [hwalk, Except.bind] at hplace
  | ok q =>
      rw [hwalk] at hplace
      have hq : d.isDirectoryAt q = true := isDirectoryAt_of_walk hroot hplace hdirectory
      have hname : ¬ nameLimit < f.utf8ByteSize :=
        Nat.not_lt.mpr (hsize.trans (by decide))
      refine reach_eq_ok_iff.mpr ⟨by simp, destination_eq_ok_iff.mpr ⟨?_, ?_, ?_⟩⟩
      · rw [List.any_append, Bool.or_eq_true, not_or] at hclean ⊢
        refine ⟨hclean.1, ?_⟩
        simpa [Component.hasNul, Component.text] using hnul
      · exact Nat.not_lt.mpr ((Path.byteSize_append_le pre rest hsize).trans hroom)
      · rw [walk_append, hwalk]
        simp only [Except.bind, walk, standIn_eq_ok_iff.mpr hq, bind, if_neg hname]
        rw [walk_eq_lands hwalk]

theorem Leads.leadsToFile_name (h : d.Leads path p)
    (hpre : pre ∈ Path.ancestors (Path.components path)) (hnul : '\x00' ∉ f.toList)
    (hsize : f.utf8ByteSize ≤ longestName.utf8ByteSize) :
    d.leadsToFile (pre ++ [.name f]) = d.files.has (lands d.current pre ++ [f]) := by
  unfold leadsToFile
  rw [h.reach_name hpre hnul hsize]

/-- Reading a place that is reached is looking at it. -/
theorem read_eq_ok_iff (h : d.placeOf path = .ok p) {text : String} :
    d.read path = .ok text ↔ d.files.get? p = some (.text text) := by
  unfold read
  rw [h]
  simp only
  split
  next hfile => simp [hfile]
  next hfile => simp [hfile]
  next hfile =>
    rw [hfile]
    split <;> simp

end Disk

end Upkeep
