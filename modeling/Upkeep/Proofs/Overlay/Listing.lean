/-
What a listing shows.

A listing is put together from the names that the store has below the folder and from the paths
whose addition is pending.  Both parts are settled by what the overlay says of single paths: a
stored name leads to a file or to a directory on the way to one, and a pending addition is a
file that is there.  An update that is pending adds nothing, and need not, as it is of a file
that is stored.  So a listing shows the entries of the folder, each once, and misses none.

But it is the store that says what comes next on the way to a file, and only for a place below
which everything goes by names is that the name of an entry.  An empty base leads to the files
of every other place too: there the next thing may be the root of the file system, or the point
that a relative path begins with, and a listing of the project's root shows that as it is.
-/
import Mathlib.Data.List.Nodup
import Upkeep.Overlay.Listing
import Upkeep.Proofs.Overlay.Arising
import Upkeep.Proofs.Text.ByteOrder

namespace Upkeep

namespace Overlay

/-! ### Names in order -/

theorem nodup_eraseDups (names : List String) : names.eraseDups.Nodup := by
  match names with
  | [] => exact List.nodup_nil
  | n :: ns =>
      rw [List.eraseDups_cons, List.nodup_cons]
      refine ⟨?_, nodup_eraseDups (ns.filter fun m => !m == n)⟩
      simp
termination_by names.length
decreasing_by exact Nat.lt_succ_of_le (List.length_filter_le _ ns)

theorem mem_sortNames {names : List String} {n : String} : n ∈ sortNames names ↔ n ∈ names := by
  unfold sortNames
  exact List.mem_mergeSort

/-- Sorting names of which none stands twice puts each before the ones with larger bytes. -/
theorem pairwise_sortNames {names : List String} (hnames : names.Nodup) :
    (sortNames names).Pairwise fun a b => Text.bytes a < Text.bytes b := by
  have hsorted : (sortNames names).Pairwise fun a b => a ≤ b := by
    unfold sortNames
    have htrans : ∀ a b c : String, decide (a ≤ b) = true → decide (b ≤ c) = true →
        decide (a ≤ c) = true := by simpa using fun a b c => String.le_trans
    have htotal : ∀ a b : String, (decide (a ≤ b) || decide (b ≤ a)) = true := by
      simpa using String.le_total
    simpa using List.pairwise_mergeSort htrans htotal names
  have hnodup : (sortNames names).Nodup := (List.mergeSort_perm names _).nodup_iff.mpr hnames
  refine hsorted.imp₂ ?_ hnodup
  intro a b hle hne
  refine Text.bytes_lt (String.not_le.mp fun hge => ?_)
  exact hne (String.le_antisymm hle hge)

end Overlay

/-! ### The entries of a folder -/

namespace ProjectPath

/-- The path of an entry of the folder. -/
def child (folder : ProjectPath) (name : String) (h : Ordinary name) : ProjectPath :=
  ⟨folder.names ++ [name], List.forall_mem_append.mpr ⟨folder.ordinary, by simpa using h⟩⟩

variable {folder q : ProjectPath} {name : String}

theorem parent_child (h : Ordinary name) : (folder.child name h).parent = folder := by
  refine ext_names ?_
  unfold parent child
  exact List.dropLast_concat

theorem child_ne_root (h : Ordinary name) : folder.child name h ≠ root := by
  intro hroot
  have hnames : folder.names ++ [name] = [] := congrArg names hroot
  simp at hnames

/-- A path below the root is an entry of its parent. -/
theorem exists_child (hq : q ≠ root) : ∃ name h, q = q.parent.child name h := by
  have hne : q.names ≠ [] := fun hnames => hq (ext_names hnames)
  exact ⟨q.names.getLast hne, q.ordinary _ (List.getLast_mem hne),
    ext_names (List.dropLast_concat_getLast hne).symm⟩

theorem text_child (h : Ordinary name) :
    (folder.child name h).text = Overlay.entryText folder name := by
  show "/".intercalate (folder.names ++ [name]) = _
  unfold Overlay.entryText
  split
  next hnames => simp [hnames]
  next hnames =>
    rw [String.intercalate_append_of_ne_nil hnames (by simp), String.intercalate_singleton]
    rfl

theorem components_locate_child (base : String) (h : Ordinary name) :
    Path.components ((folder.child name h).locate base) =
      Path.components (folder.locate base) ++ [.name name] := by
  rw [components_locate, components_locate]
  simp [child]

/-- Neither the root of the file system nor a point is the written form of a path. -/
theorem text_ne_of_beginning {c : Component} (hc : c = .root ∨ c = .here) (q : ProjectPath) :
    q.text ≠ c.text := by
  intro h
  have hread : resolve "" c.text = q := by rw [← h, resolve_text]
  rcases hc with rfl | rfl
  · rw [← hread] at h
    exact absurd h (by decide +kernel)
  · rw [← hread] at h
    exact absurd h (by decide +kernel)

end ProjectPath

/-! ### What the store has below a folder -/

theorem Path.within?_eq_some_iff {base path rest : List Component} :
    Path.within? base path = some rest ↔ path = base ++ rest := by
  unfold Path.within?
  rw [Option.ite_none_right_eq_some, Option.some.injEq, List.isPrefixOf_iff_prefix]
  constructor
  · rintro ⟨hfront, rfl⟩
    exact (List.prefix_iff_eq_append.mp hfront).symm
  · rintro rfl
    exact ⟨List.prefix_append _ _, List.drop_left⟩

namespace Project

variable {p : Project} {folder q : ProjectPath} {name : String}

/-- The way to some file goes through the folder and then by this name. -/
def Stores (p : Project) (folder : ProjectPath) (name : String) : Prop :=
  ∃ c rest, p.store.leadsToFile (Path.components (folder.locate p.base) ++ c :: rest) = true ∧
    c.text = name

/-- The path is a directory on the way to some file. -/
def IsDirectory (p : Project) (q : ProjectPath) : Prop := ∃ name, p.Stores q name

/-- From an empty base the way to some file starts so, at the root of the file system or with a
point. -/
def Strays (p : Project) (start : String) : Prop :=
  p.base = "" ∧ ∃ c rest, (c = .root ∨ c = .here) ∧ p.store.leadsToFile (c :: rest) = true ∧
    c.text = start

theorem mem_names_iff {m : Memory} {path : String} :
    name ∈ m.names path ↔
      ∃ c rest, m.leadsToFile (Path.components path ++ c :: rest) = true ∧ c.text = name := by
  unfold Memory.names Memory.leadsToFile Entries.has
  simp only [List.mem_eraseDups, List.mem_filterMap, Path.within?_eq_some_iff,
    Option.map_eq_some_iff, List.head?_eq_some_iff, ← Entries.mem_keys_iff]
  constructor
  · rintro ⟨below, ⟨key, hkey, rfl⟩, c, ⟨rest, rfl⟩, hname⟩
    exact ⟨c, rest, hkey, hname⟩
  · rintro ⟨c, rest, hkey, hname⟩
    exact ⟨c :: rest, ⟨_, hkey, rfl⟩, c, ⟨rest, rfl⟩, hname⟩

/-- A project in memory lists each name once that it has below the folder, and none where there
is nothing to be listed. -/
theorem IsOpen.list_eq (h : p.IsOpen) (folder : ProjectPath) :
    ∃ names, (p.list folder).toOption.getD [] = names ∧ names.Nodup ∧
      ∀ name, name ∈ names ↔ p.Stores folder name := by
  obtain ⟨m, hm, hopen⟩ := h
  have hlist : (p.list folder).toOption.getD [] = m.names (folder.locate p.base) := by
    unfold Project.list
    rw [hm]
    show (m.list _).toOption.getD [] = _
    unfold Memory.list
    rw [if_neg (by rw [hopen.isClosed]; decide)]
    split
    next hnone => rw [hnone]; rfl
    next => rfl
  refine ⟨_, hlist, ?_, fun name => ?_⟩
  · unfold Memory.names
    exact Overlay.nodup_eraseDups _
  · unfold Stores
    rw [hm]
    exact mem_names_iff

/-- A file or a directory is stored under its name. -/
theorem stores_child (h : Ordinary name)
    (hq : p.store.isFile ((folder.child name h).locate p.base) = true ∨
      p.IsDirectory (folder.child name h)) : p.Stores folder name := by
  rcases hq with hfile | ⟨-, c, rest, hfile, -⟩
  · unfold Store.isFile at hfile
    rw [ProjectPath.components_locate_child] at hfile
    exact ⟨.name name, [], hfile, rfl⟩
  · rw [ProjectPath.components_locate_child, List.append_assoc] at hfile
    exact ⟨.name name, c :: rest, hfile, rfl⟩

/-- **What is stored under a name is a file or a directory.**  Only an empty base has more below
it. -/
theorem Orderly.stores_cases (horderly : p.Orderly) (h : p.Stores folder name) :
    (∃ h : Ordinary name, p.store.isFile ((folder.child name h).locate p.base) = true ∨
      p.IsDirectory (folder.child name h)) ∨ folder = .root ∧ p.Strays name := by
  obtain ⟨c, rest, hfile, htext⟩ := h
  have hc : c.IsName ∨ folder = .root ∧ p.base = "" ∧ (c = .root ∨ c = .here) := by
    rw [ProjectPath.components_locate, List.append_assoc] at hfile
    cases hnames : folder.names with
    | nil =>
        rw [hnames] at hfile
        exact (horderly c rest hfile).1.imp_right (And.intro (ProjectPath.ext_names hnames))
    | cons n ns =>
        rw [hnames] at hfile
        exact .inl ((horderly (.name n) _ hfile).2 c (by simp))
  rcases hc with ⟨n, rfl, hname⟩ | ⟨rfl, hbase, hbeginning⟩
  · obtain rfl : n = name := htext
    refine .inl ⟨hname, ?_⟩
    unfold IsDirectory Stores Store.isFile
    rw [ProjectPath.components_locate_child]
    cases rest with
    | nil => exact .inl hfile
    | cons d rest => exact .inr ⟨d.text, d, rest, by rwa [List.append_assoc], rfl⟩
  · refine .inr ⟨rfl, hbase, c, rest, hbeginning, ?_, htext⟩
    rwa [hbase] at hfile

theorem Strays.stores (h : p.Strays name) : p.Stores .root name := by
  obtain ⟨hbase, c, rest, -, hfile, hname⟩ := h
  refine ⟨c, rest, ?_, hname⟩
  rwa [hbase]

end Project

/-! ### The two parts of a listing -/

namespace ChangeSet

variable {records : ChangeSet} {q : ProjectPath}

/-- A path is found by its written form. -/
theorem named?_text (records : ChangeSet) (q : ProjectPath) :
    records.named? q.text = Entries.get? records q := by
  induction records with
  | nil => rfl
  | cons record records ih =>
      obtain ⟨r, change⟩ := record
      unfold named? at ih ⊢
      rw [Entries.get?]
      by_cases hrq : r = q
      · rw [List.find?_cons_of_pos (by simp [hrq]), if_pos hrq]
        rfl
      · rw [List.find?_cons_of_neg (by simpa using fun h => hrq (ProjectPath.text_injective h)),
          if_neg hrq, ih]

/-- What is no written form finds nothing. -/
theorem named?_eq_none {path : String} (h : ∀ q : ProjectPath, q.text ≠ path) :
    records.named? path = none := by
  unfold named?
  rw [Option.map_eq_none_iff, List.find?_eq_none]
  simpa using fun q _ _ => h q

theorem mem_ofKind_add (hdistinct : records.Distinct) :
    q ∈ records.ofKind .add ↔ ∃ content, Entries.get? records q = some (.add content) := by
  unfold ofKind
  simp only [List.mem_map, List.mem_filter, decide_eq_true_eq]
  constructor
  · rintro ⟨⟨r, change⟩, ⟨hmem, hkind⟩, rfl⟩
    have hget := Entries.get?_of_mem hdistinct hmem
    cases change with
    | add content => exact ⟨content, hget⟩
    | update => cases hkind
    | delete => cases hkind
  · rintro ⟨content, hget⟩
    exact ⟨(q, .add content), ⟨Entries.mem_of_get? hget, rfl⟩, rfl⟩

theorem ofKind_sublist_keys (records : ChangeSet) (k : ChangeKind) :
    (records.ofKind k).Sublist (Entries.keys records) :=
  List.filter_sublist.map _

end ChangeSet

namespace Overlay

variable {o : Overlay} {folder q : ProjectPath} {name entry : String}

theorem entryText_injective (folder : ProjectPath) : Function.Injective (entryText folder) := by
  intro a b h
  unfold entryText at h
  split at h
  · exact h
  · exact String.append_right_inj _ |>.mp h

/-- The names that are stored below the folder and not to be deleted, in order. -/
def keptNames (o : Overlay) (folder : ProjectPath) : List String :=
  (sortNames ((o.project.list folder).toOption.getD [])).filter fun name =>
    o.records.named? (entryText folder name) ≠ some .delete

/-- The paths right below the folder whose addition is pending, in the order of the records and
without those that are stored. -/
def addedPaths (o : Overlay) (folder : ProjectPath) : List ProjectPath :=
  ((o.records.ofKind .add).filter fun q => q.parent = folder).filter fun q =>
    q.text ∉ (o.keptNames folder).map (entryText folder)

/-- A listing in its two parts. -/
theorem entriesAt_eq (o : Overlay) (folder : ProjectPath) :
    o.entriesAt folder =
      (o.keptNames folder).map (entryText folder) ++ (o.addedPaths folder).map ProjectPath.text := by
  have hkept : ((sortNames ((o.project.list folder).toOption.getD [])).map
      (entryText folder)).filter (fun path => o.records.named? path ≠ some .delete) =
        (o.keptNames folder).map (entryText folder) := List.filter_map
  unfold entriesAt
  simp only [hkept]
  rw [List.filter_map]
  rfl

theorem mem_keptNames (hopen : o.project.IsOpen) :
    name ∈ o.keptNames folder ↔ o.project.Stores folder name ∧
      o.records.named? (entryText folder name) ≠ some .delete := by
  obtain ⟨stored, hlist, -, hstored⟩ := hopen.list_eq folder
  unfold keptNames
  rw [List.mem_filter, mem_sortNames, hlist, hstored, decide_eq_true_eq]

theorem pairwise_keptNames (hopen : o.project.IsOpen) (folder : ProjectPath) :
    (o.keptNames folder).Pairwise fun a b => Text.bytes a < Text.bytes b := by
  obtain ⟨stored, hlist, hnodup, -⟩ := hopen.list_eq folder
  unfold keptNames
  rw [hlist]
  exact (pairwise_sortNames hnodup).filter _

theorem mem_addedPaths (hdistinct : o.records.Distinct) :
    q ∈ o.addedPaths folder ↔ q.parent = folder ∧ (∃ content, o.record? q = some (.add content)) ∧
      q.text ∉ (o.keptNames folder).map (entryText folder) := by
  unfold addedPaths
  rw [List.mem_filter, List.mem_filter, ChangeSet.mem_ofKind_add hdistinct, decide_eq_true_eq,
    decide_eq_true_eq, and_assoc, and_left_comm]
  rfl

theorem addedPaths_sublist (o : Overlay) (folder : ProjectPath) :
    (o.addedPaths folder).Sublist o.records.keys :=
  (List.filter_sublist.trans List.filter_sublist).trans (ChangeSet.ofKind_sublist_keys _ _)

/-- No entry is listed twice. -/
theorem nodup_entriesAt (S : Standing o) (folder : ProjectPath) : (o.entriesAt folder).Nodup := by
  have hkept : (o.keptNames folder).Nodup :=
    (pairwise_keptNames S.isOpen folder).imp fun hlt heq => by
      rw [heq] at hlt
      exact List.lt_irrefl _ hlt
  have hadded : (o.addedPaths folder).Nodup := S.distinct.sublist (addedPaths_sublist o folder)
  rw [entriesAt_eq, List.nodup_append]
  refine ⟨hkept.map (entryText_injective folder), hadded.map fun _ _ => ProjectPath.text_injective,
    ?_⟩
  rintro entry hentry _ hlisted rfl
  obtain ⟨q, hq, rfl⟩ := List.mem_map.mp hlisted
  exact ((mem_addedPaths S.distinct).mp hq).2.2 hentry

/-! ### What is listed -/

/-- The entry is the written path of something right below the folder: of a file that is there,
or of a directory on the way to a stored file, unless it is to be deleted. -/
def HasEntry (o : Overlay) (folder : ProjectPath) (entry : String) : Prop :=
  ∃ q : ProjectPath, q.text = entry ∧ q ≠ .root ∧ q.parent = folder ∧
    (o.has entry = true ∨ o.project.IsDirectory q ∧ o.record? q ≠ some .delete)

/-- A name is looked up by the path of its entry. -/
theorem named?_child (o : Overlay) (h : Ordinary name) :
    o.records.named? (entryText folder name) = o.record? (folder.child name h) := by
  rw [← ProjectPath.text_child h]
  exact ChangeSet.named?_text _ _

/-- Nothing is on record for what strays from an empty base. -/
theorem named?_of_strays (h : o.project.Strays name) :
    o.records.named? (entryText .root name) = none := by
  obtain ⟨-, c, -, hc, -, rfl⟩ := h
  exact ChangeSet.named?_eq_none (ProjectPath.text_ne_of_beginning hc)

/-- What strays from an empty base is read as the root of the project. -/
theorem resolve_of_strays (h : o.project.Strays name) : o.resolve name = .root := by
  obtain ⟨hbase, c, -, hc, -, rfl⟩ := h
  unfold resolve Project.resolve
  rw [hbase]
  rcases hc with rfl | rfl <;> decide +kernel

/-- A stored name is looked up by the path that its entry is read as. -/
theorem named?_entryText (S : Standing o) (hroot : o.record? .root = none)
    (h : o.project.Stores folder name) :
    o.records.named? (entryText folder name) =
      o.record? (o.resolve (entryText folder name)) := by
  rcases S.orderly.stores_cases h with ⟨h, -⟩ | ⟨rfl, hstray⟩
  · rw [named?_child o h, ← ProjectPath.text_child h, resolve_text]
  · rw [named?_of_strays hstray, show entryText .root name = name from rfl,
      resolve_of_strays hstray, hroot]

/-- What is kept is a file or a directory, or strays from an empty base. -/
theorem mem_keptNames_iff (S : Standing o) :
    name ∈ o.keptNames folder ↔
      (∃ h : Ordinary name,
        (o.project.store.isFile ((folder.child name h).locate o.project.base) = true ∨
          o.project.IsDirectory (folder.child name h)) ∧
        o.record? (folder.child name h) ≠ some .delete) ∨
      folder = .root ∧ o.project.Strays name := by
  rw [mem_keptNames S.isOpen]
  constructor
  · rintro ⟨hstored, hkept⟩
    rcases S.orderly.stores_cases hstored with ⟨h, hq⟩ | hstray
    · exact .inl ⟨h, hq, named?_child o h ▸ hkept⟩
    · exact .inr hstray
  · rintro (⟨h, hq, hkept⟩ | ⟨rfl, hstray⟩)
    · exact ⟨Project.stores_child h hq, named?_child o h ▸ hkept⟩
    · exact ⟨hstray.stores, by simp [named?_of_strays hstray]⟩

/-- A file that is there is kept or pending as an addition; a directory is kept. -/
theorem mem_keptNames_or_added (S : Standing o) (h : Ordinary name)
    (hq : o.hasAt (folder.child name h) = true ∨
      o.project.IsDirectory (folder.child name h) ∧
        o.record? (folder.child name h) ≠ some .delete) :
    name ∈ o.keptNames folder ∨
      ∃ content, o.record? (folder.child name h) = some (.add content) := by
  have hkept : (o.project.store.isFile ((folder.child name h).locate o.project.base) = true ∨
      o.project.IsDirectory (folder.child name h)) →
      o.record? (folder.child name h) ≠ some .delete → name ∈ o.keptNames folder :=
    fun hstored hrecord => (mem_keptNames_iff S).mpr (.inl ⟨h, hstored, hrecord⟩)
  unfold hasAt at hq
  cases hrecord : o.record? (folder.child name h) with
  | none =>
      rw [hrecord] at hq hkept
      refine .inl (hkept (hq.imp (fun hfile => ?_) And.left) (by simp))
      exact (Bool.and_eq_true_iff.mp hfile).2
  | some r =>
      rw [hrecord] at hq hkept
      cases r with
      | add content => exact .inr ⟨content, rfl⟩
      | delete => simp [Pending.kind] at hq
      | update content =>
          refine .inl (hkept (.inl ?_) (by simp))
          rw [S.isOpen.store_isFile_eq]
          exact S.updated _ _ hrecord

/-- A stored file that is not to be deleted is there. -/
theorem hasAt_of_isFile (hne : q ≠ .root)
    (hfile : o.project.store.isFile (q.locate o.project.base) = true)
    (hrecord : o.record? q ≠ some .delete) : o.hasAt q = true := by
  unfold hasAt
  split
  next r hr =>
    rw [hr] at hrecord
    cases r with
    | add => rfl
    | update => rfl
    | delete => exact absurd rfl hrecord
  next =>
    unfold Project.isFile
    rw [hfile, Bool.and_true, decide_eq_true_eq]
    exact fun hnames => hne (ProjectPath.ext_names hnames)

/-- A kept name is an entry, or strays from an empty base. -/
theorem hasEntry_of_kept (S : Standing o) (h : name ∈ o.keptNames folder) :
    o.HasEntry folder (entryText folder name) ∨
      folder = .root ∧ o.project.Strays (entryText folder name) := by
  rcases (mem_keptNames_iff S).mp h with ⟨h, hstored, hrecord⟩ | ⟨rfl, hstray⟩
  · refine .inl ⟨folder.child name h, ProjectPath.text_child h, ProjectPath.child_ne_root h,
      ProjectPath.parent_child h, ?_⟩
    rw [← ProjectPath.text_child h, has_text]
    exact hstored.imp (fun hfile => hasAt_of_isFile (ProjectPath.child_ne_root h) hfile hrecord)
      fun hdirectory => ⟨hdirectory, hrecord⟩
  · exact .inr ⟨rfl, hstray⟩

/-- A pending addition is an entry of its folder. -/
theorem hasEntry_of_added {content : String} (hq : q ≠ .root)
    (h : o.record? q = some (.add content)) : o.HasEntry q.parent q.text := by
  refine ⟨q, rfl, hq, rfl, .inl ?_⟩
  rw [has_text]
  unfold hasAt
  rw [h]
  rfl

/-- **What is listed is what is there**, and where the base is empty what strays from it. -/
theorem mem_entriesAt (S : Standing o) (hroot : o.record? .root = none) :
    entry ∈ o.entriesAt folder ↔
      o.HasEntry folder entry ∨ folder = .root ∧ o.project.Strays entry := by
  rw [entriesAt_eq, List.mem_append, List.mem_map, List.mem_map]
  constructor
  · rintro (⟨name, hname, rfl⟩ | ⟨q, hq, rfl⟩)
    · exact hasEntry_of_kept S hname
    · obtain ⟨rfl, ⟨content, hadd⟩, -⟩ := (mem_addedPaths S.distinct).mp hq
      have hne : q ≠ .root := by
        rintro rfl
        rw [hroot] at hadd
        cases hadd
      exact .inl (hasEntry_of_added hne hadd)
  · rintro (⟨q, rfl, hq, rfl, hthere⟩ | ⟨rfl, hstray⟩)
    · obtain ⟨name, h, hchild⟩ := ProjectPath.exists_child hq
      have htext : entryText q.parent name = q.text :=
        (ProjectPath.text_child h).symm.trans (congrArg ProjectPath.text hchild).symm
      rw [has_text, hchild] at hthere
      by_cases hlisted : q.text ∈ (o.keptNames q.parent).map (entryText q.parent)
      · exact .inl (List.mem_map.mp hlisted)
      · refine .inr ⟨q, (mem_addedPaths S.distinct).mpr ⟨rfl, ?_, hlisted⟩, rfl⟩
        rw [hchild]
        exact (mem_keptNames_or_added S h hthere).resolve_left fun hname =>
          hlisted (List.mem_map.mpr ⟨name, hname, htext⟩)
    · exact .inl ⟨entry, (mem_keptNames_iff S).mpr (.inr ⟨rfl, hstray⟩), rfl⟩

/-- **A listing shows just what is there, unless the base is empty.**  After whatever has been
made of a project in memory with plain files, and for every spelling of a folder: nothing is
listed twice; what is stored comes first, by name and without what is to be deleted, and pending
additions follow in the order of the records; no file of the folder is missed; and what is listed
are the files and directories right below the folder, and where the base is empty also what the
paths of files outside the project begin with.  So a listing holds nothing else unless it is of
the root of a project with an empty base, and in the store there is such a file. -/
theorem entries_rightful_iff {p : Project} (hopen : p.IsOpen) (hplain : p.Plain)
    (h : ArisesFrom p o) (hroot : o.record? .root = none) (s : String) :
    let folder := o.resolve s
    (o.entries s).Nodup ∧
    (∃ (names : List String) (added : List ProjectPath),
      o.entries s = names.map (entryText folder) ++ added.map ProjectPath.text ∧
      names.Pairwise (fun a b => Text.bytes a < Text.bytes b) ∧
      (∀ name, name ∈ names ↔ o.project.Stores folder name ∧
        o.record? (o.resolve (entryText folder name)) ≠ some .delete) ∧
      added.Sublist o.records.keys ∧
      ∀ q, q ∈ added ↔ q.parent = folder ∧ (∃ content, o.record? q = some (.add content)) ∧
        q.text ∉ names.map (entryText folder)) ∧
    (∀ t, (o.resolve t).parent = folder → o.has t = true → (o.resolve t).text ∈ o.entries s) ∧
    (∀ entry, entry ∈ o.entries s ↔
      o.HasEntry folder entry ∨ folder = .root ∧ o.project.Strays entry) ∧
    ((∀ entry ∈ o.entries s, o.HasEntry folder entry) ↔
      ¬(folder = .root ∧ ∃ start, o.project.Strays start)) := by
  intro folder
  have S : Standing o := h.standing hopen hplain
  have hmem : ∀ entry, entry ∈ o.entries s ↔
      o.HasEntry folder entry ∨ folder = .root ∧ o.project.Strays entry :=
    fun entry => mem_entriesAt S hroot
  refine ⟨nodup_entriesAt S folder, ⟨o.keptNames folder, o.addedPaths folder,
    entriesAt_eq o folder, pairwise_keptNames S.isOpen folder, fun name => ?_,
    addedPaths_sublist o folder, fun q => mem_addedPaths S.distinct⟩, fun t hparent ht => ?_, hmem,
    fun hall hstray => ?_, fun hnone entry hentry => ?_⟩
  · rw [mem_keptNames S.isOpen]
    exact and_congr_right fun hstored => by rw [named?_entryText S hroot hstored]
  · have hne : o.resolve t ≠ .root := by
      intro hc
      unfold has hasAt at ht
      rw [hc, hroot] at ht
      exact absurd ht (by simp [Project.isFile, ProjectPath.root])
    refine (hmem _).mpr (.inl ⟨o.resolve t, rfl, hne, hparent, .inl ?_⟩)
    rwa [has_text]
  · obtain ⟨hfolder, start, hstart⟩ := hstray
    obtain ⟨q, hq, -⟩ := hall start ((hmem start).mpr (.inr ⟨hfolder, hstart⟩))
    obtain ⟨-, c, -, hc, -, rfl⟩ := hstart
    exact ProjectPath.text_ne_of_beginning hc q hq
  · refine ((hmem entry).mp hentry).resolve_right fun hstray => ?_
    exact hnone ⟨hstray.1, entry, hstray.2⟩

/-- A project with an empty base and a file outside of it: the listing of its root has a directory
and a pending addition, and also the root of the file system. -/
theorem entries_rightful_iff_outside :
    let p : Project := ⟨"", .memory ⟨[(Path.components "/a", ⟨"/a", "x"⟩),
      (Path.components "src/b", ⟨"src/b", "y"⟩)], []⟩⟩
    let o := (empty p).after (.add "c" "z")
    p.IsOpen ∧ p.Plain ∧ ArisesFrom p o ∧ o.record? .root = none ∧
      "src" ∈ o.entries "" ∧ "c" ∈ o.entries "" ∧ "/" ∈ o.entries "" ∧ ¬o.HasEntry .root "/" ∧
      ¬∀ entry ∈ o.entries "", o.HasEntry .root entry := by
  intro p o
  have hopen : p.IsOpen := ⟨_, rfl, rfl⟩
  have hplain : p.Plain := by
    intro key hkey
    have hmem : key ∈ [Path.components "/a", Path.components "src/b"] :=
      Entries.mem_keys_iff.mpr hkey
    rcases List.mem_pair.mp hmem with rfl | rfl
    · exact ⟨"/a", rfl, by decide +kernel, by decide⟩
    · exact ⟨"src/b", rfl, by decide +kernel, by decide⟩
  have harises : ArisesFrom p o := .call _ .start
  have hroot : o.record? .root = none := by decide +kernel
  have hproject : o.project = p := after_project _ _
  have hstray : o.project.Strays "/" := by
    rw [hproject]
    exact ⟨rfl, .root, [.name "a"], .inl rfl, by decide +kernel, rfl⟩
  have hdirectory : o.project.IsDirectory ⟨["src"], by decide⟩ := by
    rw [hproject]
    exact ⟨"b", .name "b", [], by decide +kernel, rfl⟩
  obtain ⟨-, -, hfiles, hmem, hiff⟩ := entries_rightful_iff hopen hplain harises hroot ""
  refine ⟨hopen, hplain, harises, hroot, ?_, hfiles "c" (by decide +kernel) (by decide +kernel),
    (hmem "/").mpr (.inr ⟨rfl, hstray⟩), ?_, fun hall => hiff.mp hall ⟨rfl, "/", hstray⟩⟩
  · exact (hmem "src").mpr (.inl ⟨_, rfl, by decide, rfl, .inr ⟨hdirectory, by decide +kernel⟩⟩)
  · rintro ⟨q, hq, -⟩
    exact ProjectPath.text_ne_of_beginning (.inl rfl) q hq

end Overlay

end Upkeep
