/-
Which package manager a project is taken to have.

`Chosen` says what a project in a directory is to have, and says nothing of how the directory is
spelled: the package manager that the manifest names, or else the one whose lockfile lies nearest
on the way up to the root of the file system, or else the default.  A search that goes up from an
absolute path finds it.  One that goes up from a relative path looks at the places that this path
goes through, and these end at the current directory, so a lockfile above it is not seen.
-/
import Upkeep.PackageManager
import Upkeep.Proofs.Store.Walk

namespace Upkeep

namespace PackageManagerKind

theorem ofName?_eq_some_iff {name : String} {k : PackageManagerKind} :
    ofName? name = some k ↔ k.program = name := by
  constructor
  · intro h
    simpa using List.find?_some h
  · rintro rfl
    cases k <;> rfl

theorem at_notMem_program (k : PackageManagerKind) : '@' ∉ k.program.toList := by
  cases k <;> decide

end PackageManagerKind

namespace PackageManager

variable {d : Disk} {p q : Place} {path absolute relative : String} {m : PackageManager}
  {k : PackageManagerKind}

/-- **A text names the package manager of which it is the written form**, and no other text does. -/
theorem ofText?_eq_some_iff {s : String} : ofText? s = some m ↔ m.text = s := by
  constructor
  · intro h
    by_cases hat : '@' ∈ s.toList
    · obtain ⟨name, version, hs, hname⟩ := List.eq_append_cons_of_mem hat
      unfold ofText? at h
      rw [hs, Text.cut_append hname] at h
      obtain ⟨kind, hkind, hm⟩ := Option.bind_eq_some_iff.mp h
      cases hm
      apply String.toList_injective
      simp [text, hs, PackageManagerKind.ofName?_eq_some_iff.mp hkind]
    · unfold ofText? at h
      rw [Text.cut_of_notMem hat] at h
      obtain ⟨kind, hkind, hm⟩ := Option.bind_eq_some_iff.mp h
      cases hm
      simpa [text] using PackageManagerKind.ofName?_eq_some_iff.mp hkind
  · rintro rfl
    have hname := PackageManagerKind.ofName?_eq_some_iff.mpr (rfl : m.kind.program = _)
    have hat := m.kind.at_notMem_program
    obtain ⟨kind, version⟩ := m
    cases version with
    | none => simp [ofText?, text, Text.cut_of_notMem hat, hname]
    | some version =>
        have hcut : Text.cut '@' (kind.program.toList ++ '@' :: version.toList) =
            (kind.program.toList, some version.toList) := Text.cut_append hat
        simp only at hname
        simp [ofText?, text, hcut, hname]

/-! ### What a project is to have -/

/-- The manifest in the directory names the package manager. -/
def Names (d : Disk) (p : Place) (m : PackageManager) : Prop :=
  ∃ text manifest, d.files.get? (p ++ [Manifest.path]) = some (.text text) ∧
    Json.read text = .ok manifest ∧ manifest.member? "packageManager" = some (.string m.text)

/-- The lockfile of the package manager lies in the directory. -/
def Holds (d : Disk) (p : Place) (k : PackageManagerKind) : Prop :=
  d.files.has (p ++ [k.lockfile]) = true

/-- The lockfile of the package manager lies in the directory and counts before the others. -/
inductive Locks (d : Disk) (p : Place) : PackageManagerKind → Prop
  | yarn (h : Holds d p .yarn) : Locks d p .yarn
  | pnpm (h : Holds d p .pnpm) (hyarn : ¬Holds d p .yarn) : Locks d p .pnpm
  | npm (h : Holds d p .npm) (hyarn : ¬Holds d p .yarn) (hpnpm : ¬Holds d p .pnpm) : Locks d p .npm

/-- The package manager that a project in the directory is to have. -/
inductive Chosen (d : Disk) (p : Place) : PackageManager → Prop
  | named {m : PackageManager} (h : Names d p m) : Chosen d p m
  | locked {q : Place} {k : PackageManagerKind} (hunnamed : ∀ m, ¬Names d p m) (habove : q <+: p)
      (hlocks : Locks d q k)
      (hnearest : ∀ r, q <+: r → r <+: p → r ≠ q → ∀ k, ¬Locks d r k) : Chosen d p ⟨k, none⟩
  | unknown (hunnamed : ∀ m, ¬Names d p m) (hnone : ∀ q, q <+: p → ∀ k, ¬Locks d q k) :
      Chosen d p classic

/-! ### The manifest -/

theorem toOption_eq_some_iff {ε α : Type} {x : Except ε α} {a : α} :
    x.toOption = some a ↔ x = .ok a := by
  cases x <;> simp [Except.toOption]

theorem ofManifest?_eq_some_iff (h : d.Leads path p) :
    ofManifest? (.disk d) path = some m ↔ Names d p m := by
  have hjoin : Path.components (Path.join path Manifest.path) =
      Path.components path ++ [.name Manifest.path] :=
    ProjectPath.components_join path (by decide)
  have hplace : d.placeOf (Path.join path Manifest.path) = .ok (p ++ [Manifest.path]) := by
    unfold Disk.placeOf
    rw [hjoin, h.reach_name (Path.self_mem_ancestors _) (by decide) (by decide), h.lands_eq]
  have hread : ∀ text, (Store.disk d).read (Path.join path Manifest.path) = .ok text ↔
      d.files.get? (p ++ [Manifest.path]) = some (.text text) := fun _ => Disk.read_eq_ok_iff hplace
  constructor
  · intro hmanifest
    unfold ofManifest? at hmanifest
    obtain ⟨text, htext, hmanifest⟩ := Option.bind_eq_some_iff.mp hmanifest
    obtain ⟨manifest, hjson, hmanifest⟩ := Option.bind_eq_some_iff.mp hmanifest
    obtain ⟨name, hname, hmanifest⟩ := Option.bind_eq_some_iff.mp hmanifest
    obtain ⟨field, hfield, hstring⟩ := Option.bind_eq_some_iff.mp hname
    refine ⟨text, manifest, (hread text).mp (toOption_eq_some_iff.mp htext),
      toOption_eq_some_iff.mp hjson, ?_⟩
    rw [hfield, Json.Value.string?_eq_some_iff.mp hstring, ofText?_eq_some_iff.mp hmanifest]
  · rintro ⟨text, manifest, hfile, hjson, hfield⟩
    have htext := (hread text).mpr hfile
    unfold ofManifest?
    simp [htext, hjson, hfield, Json.Value.string?, Except.toOption,
      ofText?_eq_some_iff.mpr (rfl : m.text = _)]

/-! ### The lockfiles -/

/-- The package manager whose lockfile counts in the directory. -/
def lockedBy? (d : Disk) (p : Place) : Option PackageManagerKind :=
  PackageManagerKind.byLockfile.find? fun k => d.files.has (p ++ [k.lockfile])

theorem lockedBy?_eq_some_iff : lockedBy? d p = some k ↔ Locks d p k := by
  unfold lockedBy? PackageManagerKind.byLockfile
  constructor
  · intro h
    simp only [List.find?_cons] at h
    grind [Locks, Holds]
  · intro h
    cases h with
    | yarn h => simp_all [Holds]
    | pnpm h hyarn => simp_all [Holds]
    | npm h hyarn hpnpm => simp_all [Holds]

theorem lockedBy?_eq_none_iff : lockedBy? d p = none ↔ ∀ k, ¬Locks d p k := by
  simp only [← lockedBy?_eq_some_iff, Option.eq_none_iff_forall_ne_some, ne_eq]

/-- The package manager of the first directory with a lockfile. -/
def nearest? (d : Disk) (places : List Place) : Option PackageManagerKind :=
  places.findSome? (lockedBy? d)

theorem nearest?_eq_none_iff {places : List Place} :
    nearest? d places = none ↔ ∀ q ∈ places, ∀ k, ¬Locks d q k := by
  simp only [nearest?, List.findSome?_eq_none_iff, lockedBy?_eq_none_iff]

theorem nearest?_append (places more : List Place) :
    nearest? d (places ++ more) = (nearest? d places).or (nearest? d more) :=
  List.findSome?_append

/-- The search for a lockfile looks at the places that the path goes through. -/
theorem ofLockfile?_eq (h : d.Leads path p) :
    ofLockfile? (.disk d) path = (nearest? d (d.passed path)).map fun k => ⟨k, none⟩ := by
  have hdirectory : ∀ pre ∈ Path.ancestors (Path.components path),
      ofDirectory? (.disk d) pre =
        (lockedBy? d (Disk.lands d.current pre)).map fun k => ⟨k, none⟩ := by
    intro pre hpre
    have hfile : ∀ k : PackageManagerKind, d.leadsToFile (pre ++ [.name k.lockfile]) =
        d.files.has (Disk.lands d.current pre ++ [k.lockfile]) := by
      intro k
      exact h.leadsToFile_name hpre (by cases k <;> decide) (by cases k <;> decide)
    unfold ofDirectory? lockedBy? Store.leadsToFile
    simp only [hfile]
  unfold ofLockfile? nearest? Disk.passed
  rw [List.findSome?_map, List.map_findSome?]
  generalize Path.ancestors (Path.components path) = pres at hdirectory
  induction pres with
  | nil => rfl
  | cons pre pres ih =>
      rw [List.findSome?_cons, List.findSome?_cons, hdirectory pre (by simp),
        ih fun other hother => hdirectory other (by simp [hother])]
      rfl

/-! ### Going up from a directory -/

/-- The directory and all above it, the nearest first. -/
def upward (p : Place) : List Place := p.inits.reverse

theorem mem_upward_iff : q ∈ upward p ↔ q <+: p := by
  rw [upward, List.mem_reverse, List.mem_inits]

theorem upward_concat (p : Place) (n : String) : upward (p ++ [n]) = (p ++ [n]) :: upward p := by
  simp [upward, List.inits_append]

/-- The directories above are those of which the directory is not one. -/
theorem mem_tail_upward_iff : q ∈ (upward p).tail ↔ q <+: p ∧ q ≠ p := by
  cases p using List.reverseRecOn with
  | nil => simp [upward]
  | append_singleton p n =>
      rw [upward_concat, List.tail_cons, mem_upward_iff, List.prefix_concat_iff]
      constructor
      · refine fun habove => ⟨.inr habove, ?_⟩
        rintro rfl
        exact absurd habove.length_le (by simp)
      · rintro ⟨hself | habove, hne⟩
        · exact absurd hself hne
        · exact habove

theorem nearest?_upward_concat (p : Place) (n : String) :
    nearest? d (upward (p ++ [n])) = (lockedBy? d (p ++ [n])).or (nearest? d (upward p)) := by
  rw [upward_concat, nearest?, List.findSome?_cons]
  cases lockedBy? d (p ++ [n]) <;> rfl

/-- The nearest lockfile is one below which, on the way to the directory, there is none. -/
theorem nearest?_upward_eq_some_iff :
    nearest? d (upward p) = some k ↔ ∃ q, q <+: p ∧ Locks d q k ∧
      ∀ r, q <+: r → r <+: p → r ≠ q → ∀ k, ¬Locks d r k := by
  induction p using List.reverseRecOn with
  | nil =>
      simp [upward, nearest?, lockedBy?_eq_some_iff]
  | append_singleton p n ih =>
      rw [nearest?_upward_concat]
      cases hlock : lockedBy? d (p ++ [n]) with
      | some j =>
          rw [Option.some_or]
          constructor
          · intro h
            refine ⟨p ++ [n], List.prefix_rfl, lockedBy?_eq_some_iff.mp (hlock.trans h), ?_⟩
            intro r hbelow habove hne
            exact absurd (List.IsPrefix.eq_of_length_le habove hbelow.length_le) hne
          · rintro ⟨q, habove, hlocks, hnearest⟩
            by_cases hq : p ++ [n] = q
            · rw [← hlock, hq, lockedBy?_eq_some_iff.mpr hlocks]
            · exact absurd (lockedBy?_eq_some_iff.mp hlock)
                (hnearest _ habove List.prefix_rfl hq j)
      | none =>
          rw [Option.none_or, ih]
          have hnone := lockedBy?_eq_none_iff.mp hlock
          constructor
          · rintro ⟨q, habove, hlocks, hnearest⟩
            refine ⟨q, habove.trans (List.prefix_append p [n]), hlocks, ?_⟩
            intro r hbelow hr hne
            rcases List.prefix_concat_iff.mp hr with rfl | hr
            · exact hnone
            · exact hnearest r hbelow hr hne
          · rintro ⟨q, habove, hlocks, hnearest⟩
            rcases List.prefix_concat_iff.mp habove with rfl | habove
            · exact absurd hlocks (hnone k)
            · exact ⟨q, habove, hlocks, fun r hbelow hr =>
                hnearest r hbelow (hr.trans (List.prefix_append p [n]))⟩

/-! ### The places that a path goes through -/

/-- An absolute path without steps up goes through the directory and all above it. -/
theorem passed_of_plain (h : Path.components absolute = .root :: p.map .name) :
    d.passed absolute = upward p := by
  have hroot : Component.root ∉ p.map Component.name := by simp
  unfold Disk.passed upward
  rw [h, Path.ancestors_of_rooted hroot, List.map_inits, ← List.map_reverse, List.map_map,
    List.map_map]
  refine (List.map_congr_left fun q _ => ?_).trans (List.map_id _)
  show Disk.lands [] (q.map .name) = q
  rw [Disk.lands_names, List.nil_append]

/-- The directories from one below the current directory up to the current one. -/
def within (d : Disk) (ns : List String) : List Place := ns.inits.reverse.map (d.current ++ ·)

theorem mem_within_iff {ns : List String} :
    q ∈ within d ns ↔ d.current <+: q ∧ q <+: d.current ++ ns := by
  simp only [within, List.mem_map, List.mem_reverse, List.mem_inits]
  constructor
  · rintro ⟨init, hinit, rfl⟩
    exact ⟨List.prefix_append _ _, (List.prefix_append_right_inj _).mpr hinit⟩
  · rintro ⟨⟨init, rfl⟩, habove⟩
    exact ⟨init, (List.prefix_append_right_inj _).mp habove, rfl⟩

/-- The way up from below the current directory comes to it, and then goes on. -/
theorem upward_append (ns : List String) :
    upward (d.current ++ ns) = within d ns ++ (upward d.current).tail := by
  have hself : ∀ p : Place, upward p = p :: (upward p).tail := by
    intro p
    cases p using List.reverseRecOn with
    | nil => rfl
    | append_singleton p n => rw [upward_concat, List.tail_cons]
  induction ns using List.reverseRecOn with
  | nil =>
      rw [List.append_nil]
      simpa [within] using hself d.current
  | append_singleton ns n ih =>
      rw [← List.append_assoc, upward_concat, ih]
      simp [within, List.inits_append]

/-- A relative path without steps up goes through the directories from the current one down, and
whether it begins with a point makes it go through the current one twice. -/
theorem passed_of_relative (hrelative : Path.isAbsolute relative = false)
    (hup : .up ∉ Path.components relative) :
    ∃ ns, Disk.lands d.current (Path.components relative) = d.current ++ ns ∧
      (d.passed relative = within d ns ∨ d.passed relative = within d ns ++ [d.current]) := by
  obtain ⟨ns, hnames⟩ := Path.components_of_relative hrelative hup
  have hroot : Component.root ∉ ns.map Component.name := by simp
  refine ⟨ns, ?_, ?_⟩
  · rcases hnames with hnames | hnames <;>
      rw [hnames] <;>
      exact Disk.lands_names d.current ns
  · unfold Disk.passed within
    rcases hnames with hnames | hnames
    · refine .inl ?_
      rw [hnames, Path.ancestors_of_rootless hroot, List.map_inits, ← List.map_reverse,
        List.map_map]
      exact List.map_congr_left fun init _ => Disk.lands_names d.current init
    · refine .inr ?_
      rw [hnames, Path.ancestors_of_rootless (by simp), List.inits_cons, List.map_inits,
        List.reverse_cons, List.map_append, ← List.map_reverse, ← List.map_reverse, List.map_map,
        List.map_map]
      refine congrArg (· ++ [d.current]) (List.map_congr_left fun init _ => ?_)
      exact Disk.lands_names d.current init

/-! ### What is detected -/

/-- The package manager of a project whose manifest names none. -/
def ofNearest : Option PackageManagerKind → PackageManager
  | some k => ⟨k, none⟩
  | none => classic

theorem ofNearest_injective : Function.Injective ofNearest := by
  intro a b h
  cases a <;> cases b <;> simp_all [ofNearest, classic]

theorem detect_of_names (h : d.Leads path p) (hnames : Names d p m) :
    detect (.disk d) path = m := by
  unfold detect
  rw [(ofManifest?_eq_some_iff h).mpr hnames]
  rfl

theorem detect_of_unnamed (h : d.Leads path p) (hunnamed : ∀ m, ¬Names d p m) :
    detect (.disk d) path = ofNearest (nearest? d (d.passed path)) := by
  have hnone : ofManifest? (.disk d) path = none :=
    Option.eq_none_iff_forall_ne_some.mpr fun m hm =>
      hunnamed m ((ofManifest?_eq_some_iff h).mp hm)
  unfold detect
  rw [hnone, ofLockfile?_eq h]
  cases nearest? d (d.passed path) <;> rfl

/-- A search that goes all the way up finds the package manager that the project is to have. -/
theorem detect_eq_iff_chosen (h : d.Leads path p) (hpassed : d.passed path = upward p) :
    detect (.disk d) path = m ↔ Chosen d p m := by
  by_cases hnames : ∃ m, Names d p m
  · obtain ⟨named, hnamed⟩ := hnames
    rw [detect_of_names h hnamed]
    constructor
    · rintro rfl
      exact .named hnamed
    · intro hchosen
      cases hchosen with
      | named hm => exact (detect_of_names h hnamed).symm.trans (detect_of_names h hm)
      | locked hunnamed => exact absurd hnamed (hunnamed named)
      | unknown hunnamed => exact absurd hnamed (hunnamed named)
  · have hunnamed := not_exists.mp hnames
    rw [detect_of_unnamed h hunnamed, hpassed]
    constructor
    · rintro rfl
      cases hnearest : nearest? d (upward p) with
      | some k =>
          obtain ⟨q, habove, hlocks, hnear⟩ := nearest?_upward_eq_some_iff.mp hnearest
          exact .locked hunnamed habove hlocks hnear
      | none =>
          refine .unknown hunnamed fun q hq => ?_
          exact nearest?_eq_none_iff.mp hnearest q (mem_upward_iff.mpr hq)
    · intro hchosen
      cases hchosen with
      | named hm => exact absurd hm (hunnamed m)
      | locked _ habove hlocks hnear =>
          rw [nearest?_upward_eq_some_iff.mpr ⟨_, habove, hlocks, hnear⟩]
          rfl
      | unknown _ hnone =>
          rw [nearest?_eq_none_iff.mpr fun q hq => hnone q (mem_upward_iff.mp hq)]
          rfl

/-- Two spellings of one directory agree where its manifest decides, and else where the first
lockfiles on both ways are of one kind. -/
theorem detect_eq_detect_iff {other : String} (h : d.Leads path p) (hother : d.Leads other p) :
    detect (.disk d) other = detect (.disk d) path ↔
      (∃ m, Names d p m) ∨ nearest? d (d.passed other) = nearest? d (d.passed path) := by
  by_cases hnames : ∃ m, Names d p m
  · obtain ⟨m, hm⟩ := hnames
    rw [detect_of_names hother hm, detect_of_names h hm]
    simp [show ∃ m, Names d p m from ⟨m, hm⟩]
  · have hunnamed := not_exists.mp hnames
    rw [detect_of_unnamed hother hunnamed, detect_of_unnamed h hunnamed,
      ofNearest_injective.eq_iff]
    simp [hnames]

/-- A relative path without steps up misses the lockfiles above the current directory, and
nothing else. -/
theorem nearest?_relative_ne_iff (hother : d.Leads relative p)
    (hrelative : Path.isAbsolute relative = false) (hup : .up ∉ Path.components relative) :
    nearest? d (d.passed relative) ≠ nearest? d (upward p) ↔
      (∀ q k, d.current <+: q → q <+: p → ¬Locks d q k) ∧
        ∃ q k, q <+: d.current ∧ q ≠ d.current ∧ Locks d q k := by
  obtain ⟨ns, hlands, hpassed⟩ := passed_of_relative (d := d) hrelative hup
  obtain rfl : p = d.current ++ ns := hother.lands_eq.symm.trans hlands
  have hbelow : nearest? d (within d ns) = none ↔
      ∀ q k, d.current <+: q → q <+: d.current ++ ns → ¬Locks d q k := by
    rw [nearest?_eq_none_iff]
    simp only [mem_within_iff]
    grind
  have habove : nearest? d (upward d.current).tail ≠ none ↔
      ∃ q k, q <+: d.current ∧ q ≠ d.current ∧ Locks d q k := by
    rw [ne_eq, nearest?_eq_none_iff]
    simp only [mem_tail_upward_iff]
    grind
  -- The current directory is looked at in any case, so looking at it again finds nothing new.
  have hrelative : nearest? d (d.passed relative) = nearest? d (within d ns) := by
    rcases hpassed with hpassed | hpassed
    · rw [hpassed]
    · rw [hpassed, nearest?_append]
      cases hwithin : nearest? d (within d ns) with
      | some k => rfl
      | none =>
          rw [Option.none_or, nearest?_eq_none_iff]
          intro q hq k
          rw [List.mem_singleton.mp hq]
          exact hbelow.mp hwithin _ k List.prefix_rfl (List.prefix_append _ _)
  rw [hrelative, upward_append, nearest?_append, ← hbelow, ← habove]
  cases nearest? d (within d ns) with
  | some k => simp
  | none => simp [eq_comm]

/-- **What is detected depends on the spelling of the project**: by its absolute path a project gets
the package manager that it is to have.  By a relative path it gets that one if its manifest names
it, or else if the first lockfiles on both ways are of one kind; without steps up in the relative
path they are not where the only lockfiles lie above the current directory. -/
theorem detect_relative_iff (h : d.Leads absolute p)
    (hplain : Path.components absolute = .root :: p.map .name) (hother : d.Leads relative p)
    (hrelative : Path.isAbsolute relative = false) :
    (∀ m, detect (.disk d) absolute = m ↔ Chosen d p m) ∧
      (detect (.disk d) relative = detect (.disk d) absolute ↔
        (∃ m, Names d p m) ∨ nearest? d (d.passed relative) = nearest? d (upward p)) ∧
      (.up ∉ Path.components relative →
        (detect (.disk d) relative ≠ detect (.disk d) absolute ↔
          (∀ m, ¬Names d p m) ∧ (∀ q k, d.current <+: q → q <+: p → ¬Locks d q k) ∧
            ∃ q k, q <+: d.current ∧ q ≠ d.current ∧ Locks d q k)) := by
  have hpassed := passed_of_plain (d := d) hplain
  have hagree := detect_eq_detect_iff h hother
  rw [hpassed] at hagree
  refine ⟨fun m => detect_eq_iff_chosen h hpassed, hagree, fun hup => ?_⟩
  rw [ne_eq, hagree, not_or, not_exists, ← nearest?_relative_ne_iff hother hrelative hup]

/-- In a folder of a workspace whose lockfile lies above, a point stands for another project than
the absolute path. -/
theorem detect_relative_below_lockfile :
    let d := Disk.ofFiles ["w", "plugin"]
      [(["w", "package-lock.json"], .text "\x7b\x7d"),
        (["w", "plugin", "package.json"], .text "\x7b\x7d")] []
    Chosen d ["w", "plugin"] ⟨.npm, none⟩ ∧ detect (.disk d) "." = classic ∧
      (∀ m, ¬Names d ["w", "plugin"] m) ∧
      ∃ q k, q <+: d.current ∧ q ≠ d.current ∧ Locks d q k := by
  intro d
  have habsolute : d.Leads "/w/plugin" ["w", "plugin"] :=
    ⟨by decide +kernel, by decide +kernel, by decide +kernel⟩
  have hpoint : d.Leads "." ["w", "plugin"] :=
    ⟨by decide +kernel, by decide +kernel, by decide +kernel⟩
  have hnpm : detect (.disk d) "/w/plugin" = ⟨.npm, none⟩ := by decide +kernel
  have hclassic : detect (.disk d) "." = classic := by decide +kernel
  obtain ⟨hchosen, -, hmisses⟩ :=
    detect_relative_iff habsolute (by decide +kernel) hpoint (by decide)
  obtain ⟨hunnamed, -, habove⟩ :=
    (hmisses (by decide +kernel)).mp (by rw [hnpm, hclassic]; decide)
  exact ⟨(hchosen _).mp hnpm, hclassic, hunnamed, habove⟩

end PackageManager

end Upkeep
