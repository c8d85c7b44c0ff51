/-
The selection of migrations by a range of versions.

A selection is refused exactly where some version cannot be read, be it an end of the range or
the version of an entry that would not be selected anyway.  Otherwise it is described by
`Selects`: nothing that lies in the range is lost and nothing is repeated, the list ascends by
precedence, and among entries of one precedence the order is that of the catalog.  The range
and the sorting go by two orders; the sorting is stable because entries of one precedence are
in order however they stand.

A range can be cut in two at any version in it.  By the full order every entry lies on one side
of the cut, and on both only if it belongs to the very version of the cut.
-/
import Mathlib.Data.List.Basic
import Upkeep.Catalog
import Upkeep.Proofs.Version.Order

namespace Upkeep

namespace Migration

/-- The version that a migration belongs to, where it can be read. -/
def version? (m : Migration) : Option Version := (Catalog.readVersion m.version).toOption

/-- The migration belongs to a version between the two, both included. -/
def liesWithin (lo hi : Version) (m : Migration) : Bool :=
  m.version?.any fun v => lo ≤ v ∧ v ≤ hi

/-- The migration belongs to a version of the same precedence. -/
def ranksAs (v : Version) (m : Migration) : Bool :=
  m.version?.any fun w => Version.precedence v w = .eq

variable {lo mid hi : Version} {m : Migration}

theorem version?_eq_some_iff {v : Version} :
    m.version? = some v ↔ Catalog.readVersion m.version = .ok v := by
  unfold version?
  cases Catalog.readVersion m.version <;> simp [Except.toOption]

theorem liesWithin_of_version? {v : Version} (h : m.version? = some v) :
    m.liesWithin lo hi = decide (lo ≤ v ∧ v ≤ hi) := by
  unfold liesWithin
  rw [h]
  rfl

theorem ranksAs_of_version? {v w : Version} (h : m.version? = some w) :
    m.ranksAs v = decide (Version.precedence v w = .eq) := by
  unfold ranksAs
  rw [h]
  rfl

theorem liesWithin_iff :
    m.liesWithin lo hi = true ↔ ∃ v, m.version? = some v ∧ lo ≤ v ∧ v ≤ hi := by
  unfold liesWithin
  rw [Option.any_eq_true]
  simp only [decide_eq_true_eq]

/-- A range that is cut in two loses nothing. -/
theorem liesWithin_cut (hlo : lo ≤ mid) (hhi : mid ≤ hi) :
    m.liesWithin lo hi = true ↔ m.liesWithin lo mid = true ∨ m.liesWithin mid hi = true := by
  simp only [liesWithin_iff]
  constructor
  · rintro ⟨v, hv, hfirst, hlast⟩
    rcases Version.le_total v mid with hbelow | habove
    · exact .inl ⟨v, hv, hfirst, hbelow⟩
    · exact .inr ⟨v, hv, habove, hlast⟩
  · rintro (⟨v, hv, hfirst, hbelow⟩ | ⟨v, hv, habove, hlast⟩)
    · exact ⟨v, hv, hfirst, Version.le_trans hbelow hhi⟩
    · exact ⟨v, hv, Version.le_trans hlo habove, hlast⟩

/-- What lies on both sides of a cut belongs to the version of the cut. -/
theorem version?_of_liesWithin_both (hbelow : m.liesWithin lo mid = true)
    (habove : m.liesWithin mid hi = true) : m.version? = some mid := by
  obtain ⟨v, hv, -, hle⟩ := liesWithin_iff.mp hbelow
  obtain ⟨w, hw, hge, -⟩ := liesWithin_iff.mp habove
  obtain rfl : v = w := Option.some.inj (hv.symm.trans hw)
  rw [hv, Version.le_antisymm hle hge]

end Migration

namespace Catalog

/-! ### Reading the versions -/

theorem readVersions_ok {catalog : List Migration} {entries : List (Version × Migration)}
    (h : readVersions catalog = .ok entries) :
    entries.map Prod.snd = catalog ∧ ∀ e ∈ entries, e.2.version? = some e.1 := by
  induction catalog generalizing entries with
  | nil => cases h; exact ⟨rfl, by simp⟩
  | cons m ms ih =>
      unfold readVersions at h
      rcases hv : readVersion m.version with fault | v
      · simp [hv, bind, Except.bind] at h
      rcases hrest : readVersions ms with fault | rest
      · simp [hv, hrest, bind, Except.bind] at h
      simp only [hv, hrest, bind, Except.bind] at h
      cases h
      obtain ⟨hsnd, hread⟩ := ih hrest
      refine ⟨by rw [List.map_cons, hsnd], fun e he => ?_⟩
      rcases List.mem_cons.mp he with rfl | he
      · exact Migration.version?_eq_some_iff.mpr hv
      · exact hread e he

/-- One version that cannot be read is enough to refuse a catalog. -/
theorem readVersions_error_iff {catalog : List Migration} :
    (∃ e, readVersions catalog = .error e) ↔
      ∃ m ∈ catalog, ∃ e, readVersion m.version = .error e := by
  induction catalog with
  | nil => simp [readVersions]
  | cons m ms ih =>
      unfold readVersions
      rcases hv : readVersion m.version with fault | v
      · simp [hv, bind, Except.bind]
      rcases hrest : readVersions ms with fault | rest
      · simpa [hv, hrest, bind, Except.bind] using ih
      · simpa [hv, hrest, bind, Except.bind] using ih

/-! ### Sorting -/

/-- A stable sort leaves values in their order that are in order however they stand. -/
theorem filter_mergeSort {α : Type _} {le : α → α → Bool}
    (htrans : ∀ a b c, le a b = true → le b c = true → le a c = true)
    (htotal : ∀ a b, (le a b || le b a) = true) {same : α → Bool}
    (hsame : ∀ a b, same a = true → same b = true → le a b = true) (xs : List α) :
    (xs.mergeSort le).filter same = xs.filter same := by
  have hordered : (xs.filter same).Pairwise fun a b => le a b = true := by
    refine List.pairwise_of_forall_mem_list fun a ha b hb => ?_
    exact hsame a b (List.mem_filter.mp ha).2 (List.mem_filter.mp hb).2
  have hsublist : (xs.filter same).Sublist (xs.mergeSort le) :=
    List.sublist_mergeSort htrans htotal hordered List.filter_sublist
  have hfiltered : (xs.filter same).Sublist ((xs.mergeSort le).filter same) := by
    have h := hsublist.filter same
    rwa [List.filter_filter, List.filter_congr fun a _ => Bool.and_self (same a)] at h
  exact (hfiltered.eq_of_length ((List.mergeSort_perm xs le).filter same).length_eq.symm).symm

/-- Precedence sorts: it is transitive, and any two versions compare. -/
def precedes (a b : Version × Migration) : Bool := (Version.precedence a.1 b.1).isLE

theorem precedes_trans (a b c : Version × Migration) (hab : precedes a b = true)
    (hbc : precedes b c = true) : precedes a c = true :=
  Std.TransCmp.isLE_trans hab hbc

theorem precedes_total (a b : Version × Migration) : (precedes a b || precedes b a) = true := by
  have hswap : Version.precedence a.1 b.1 = (Version.precedence b.1 a.1).swap :=
    Std.OrientedCmp.eq_swap
  unfold precedes
  rw [hswap]
  cases Version.precedence b.1 a.1 <;> rfl

/-! ### The selection -/

/-- The list is what a range of versions selects from a catalog: all entries in the range as
often as they are listed, ascending by precedence, and in the order of the catalog where they
have one precedence. -/
structure Selects (lo hi : Version) (catalog ms : List Migration) : Prop where
  perm : ms.Perm (catalog.filter (Migration.liesWithin lo hi))
  ascending : ms.Pairwise fun a b => ∀ v w, a.version? = some v → b.version? = some w →
    (Version.precedence v w).isLE = true
  stable : ∀ v, ms.filter (Migration.ranksAs v) =
    (catalog.filter (Migration.liesWithin lo hi)).filter (Migration.ranksAs v)

theorem Selects.mem_iff {lo hi : Version} {catalog ms : List Migration}
    (S : Selects lo hi catalog ms) {m : Migration} :
    m ∈ ms ↔ m ∈ catalog ∧ m.liesWithin lo hi = true := by
  rw [S.perm.mem_iff, List.mem_filter]

/-- The entries with the versions that were read, of which those in a range are sorted. -/
def selection (lo hi : Version) (entries : List (Version × Migration)) : List Migration :=
  ((entries.filter fun (v, _) => lo ≤ v ∧ v ≤ hi).mergeSort precedes).map Prod.snd

variable {lo hi : Version} {catalog ms : List Migration} {entries : List (Version × Migration)}
  {first last : String}

/-- A test of versions is a test of the migrations that belong to them. -/
theorem map_filter_entries (hread : ∀ e ∈ entries, e.2.version? = some e.1)
    {test : Version → Bool} {test' : Migration → Bool}
    (htest : ∀ m v, m.version? = some v → test' m = test v) :
    (entries.filter fun e => test e.1).map Prod.snd = (entries.map Prod.snd).filter test' := by
  rw [List.filter_map]
  congr 1
  exact List.filter_congr fun e he => (htest e.2 e.1 (hread e he)).symm

/-- Versions of the precedence of one version are in order however they stand. -/
theorem precedes_of_eq {v : Version} {a b : Version × Migration}
    (ha : Version.precedence v a.1 = .eq) (hb : Version.precedence v b.1 = .eq) :
    precedes a b = true := by
  have hswap : Version.precedence a.1 v = (Version.precedence v a.1).swap :=
    Std.OrientedCmp.eq_swap
  refine Std.TransCmp.isLE_trans (b := v) ?_ ?_
  · rw [hswap, ha]
    rfl
  · rw [hb]
    rfl

theorem selects_selection (h : readVersions catalog = .ok entries) (lo hi : Version) :
    Selects lo hi catalog (selection lo hi entries) := by
  obtain ⟨rfl, hread⟩ := readVersions_ok h
  unfold selection
  have hrange : (entries.filter fun (v, _) => lo ≤ v ∧ v ≤ hi).map Prod.snd =
      (entries.map Prod.snd).filter (Migration.liesWithin lo hi) :=
    map_filter_entries hread fun _ _ => Migration.liesWithin_of_version?
  have hread : ∀ e ∈ entries.filter fun (v, _) => lo ≤ v ∧ v ≤ hi, e.2.version? = some e.1 :=
    fun e he => hread e (List.mem_of_mem_filter he)
  generalize entries.filter (fun (v, _) => lo ≤ v ∧ v ≤ hi) = inRange at *
  have hsorted : ∀ e ∈ inRange.mergeSort precedes, e.2.version? = some e.1 :=
    fun e he => hread e (List.mem_mergeSort.mp he)
  refine ⟨?_, ?_, fun v => ?_⟩
  · rw [← hrange]
    exact (List.mergeSort_perm inRange precedes).map Prod.snd
  · rw [List.pairwise_map]
    refine (List.pairwise_mergeSort precedes_trans precedes_total inRange).imp_of_mem ?_
    intro a b ha hb hab v w hv hw
    obtain rfl := Option.some.inj ((hsorted a ha).symm.trans hv)
    obtain rfl := Option.some.inj ((hsorted b hb).symm.trans hw)
    exact hab
  · have hranks : ∀ (m : Migration) w, m.version? = some w →
        m.ranksAs v = decide (Version.precedence v w = .eq) :=
      fun _ _ => Migration.ranksAs_of_version?
    rw [← hrange, ← map_filter_entries hsorted hranks, ← map_filter_entries hread hranks,
      filter_mergeSort precedes_trans precedes_total]
    intro a b ha hb
    exact precedes_of_eq (of_decide_eq_true ha) (of_decide_eq_true hb)

/-- Where everything can be read, a selection is answered. -/
theorem selectRange_of_read (hlo : readVersion first = .ok lo) (hhi : readVersion last = .ok hi)
    (h : readVersions catalog = .ok entries) :
    selectRange catalog first last = .ok (selection lo hi entries) := by
  unfold selectRange
  simp only [hlo, hhi, h, bind, Except.bind]
  rfl

/-- A selection that is answered is the one by the versions that the ends are read as. -/
theorem selectRange_ok (h : selectRange catalog first last = .ok ms) :
    ∃ lo hi entries, readVersion first = .ok lo ∧ readVersion last = .ok hi ∧
      readVersions catalog = .ok entries ∧ Selects lo hi catalog ms := by
  rcases hlo : readVersion first with fault | lo
  · simp [selectRange, hlo, bind, Except.bind] at h
  rcases hhi : readVersion last with fault | hi
  · simp [selectRange, hlo, hhi, bind, Except.bind] at h
  rcases hentries : readVersions catalog with fault | entries
  · simp [selectRange, hlo, hhi, hentries, bind, Except.bind] at h
  rw [selectRange_of_read hlo hhi hentries] at h
  cases h
  exact ⟨lo, hi, entries, rfl, rfl, rfl, selects_selection hentries lo hi⟩

/-- A selection is refused for any text that is no version, wanted or not. -/
theorem selectRange_error_iff :
    (∃ e, selectRange catalog first last = .error e) ↔
      ∃ text ∈ first :: last :: catalog.map Migration.version,
        ∃ e, readVersion text = .error e := by
  rcases h : selectRange catalog first last with e | ms
  · refine iff_of_true ⟨e, rfl⟩ ?_
    rcases hlo : readVersion first with fault | lo
    · exact ⟨first, by simp, fault, hlo⟩
    rcases hhi : readVersion last with fault | hi
    · exact ⟨last, by simp, fault, hhi⟩
    rcases hentries : readVersions catalog with fault | entries
    · obtain ⟨m, hm, fault, hfault⟩ := readVersions_error_iff.mp ⟨fault, hentries⟩
      refine ⟨m.version, ?_, fault, hfault⟩
      exact List.mem_cons_of_mem _ (List.mem_cons_of_mem _ (List.mem_map_of_mem hm))
    · rw [selectRange_of_read hlo hhi hentries] at h
      cases h
  · refine iff_of_false (by simp) ?_
    rintro ⟨text, hmem, fault, hfault⟩
    obtain ⟨lo, hi, entries, hlo, hhi, hentries, -⟩ := selectRange_ok h
    rw [List.mem_cons, List.mem_cons, List.mem_map] at hmem
    rcases hmem with rfl | rfl | ⟨m, hm, rfl⟩
    · rw [hlo] at hfault
      cases hfault
    · rw [hhi] at hfault
      cases hfault
    · obtain ⟨fault, hrefused⟩ := readVersions_error_iff.mpr ⟨m, hm, fault, hfault⟩
      rw [hentries] at hrefused
      cases hrefused

/-- **A range of versions selects what lies in it, and can be cut.**  The selection is refused
exactly where an end or some version of the catalog cannot be read.  Otherwise nothing in the
range is lost, repeated or put out of order.  And for a version in between, which can be
written in any way, the two ranges that it cuts have between them just the entries of the
whole, and share only those of that very version. -/
theorem selectRange_exact (catalog : List Migration) (first last : String) :
    ((∃ e, selectRange catalog first last = .error e) ↔
      ∃ text ∈ first :: last :: catalog.map Migration.version, ∃ e, readVersion text = .error e) ∧
    ∀ ms, selectRange catalog first last = .ok ms →
      ∃ lo hi, readVersion first = .ok lo ∧ readVersion last = .ok hi ∧
        Selects lo hi catalog ms ∧
        ∀ between mid, readVersion between = .ok mid → lo ≤ mid → mid ≤ hi →
          ∃ early late, selectRange catalog first between = .ok early ∧
            selectRange catalog between last = .ok late ∧
            ∀ m, (m ∈ ms ↔ m ∈ early ∨ m ∈ late) ∧
              (m ∈ early → m ∈ late → m.version? = some mid) := by
  refine ⟨selectRange_error_iff, fun ms h => ?_⟩
  obtain ⟨lo, hi, entries, hlo, hhi, hentries, S⟩ := selectRange_ok h
  refine ⟨lo, hi, hlo, hhi, S, fun between mid hmid hle hge => ?_⟩
  have hearly := selects_selection hentries lo mid
  have hlate := selects_selection hentries mid hi
  refine ⟨_, _, selectRange_of_read hlo hmid hentries, selectRange_of_read hmid hhi hentries,
    fun m => ⟨?_, fun hbelow habove => ?_⟩⟩
  · rw [S.mem_iff, hearly.mem_iff, hlate.mem_iff, Migration.liesWithin_cut hle hge, and_or_left]
  · exact Migration.version?_of_liesWithin_both (hearly.mem_iff.mp hbelow).2
      (hlate.mem_iff.mp habove).2

/-- A range with build metadata in it, cut at a pre-release. -/
theorem selectRange_exact_cut :
    let entry (key version : String) : Migration :=
      ⟨key, version, "", .ofEdit key none fun o _ => .ok o⟩
    let catalog : List Migration :=
      [entry "a" "v2.0.0", entry "b" "2.0.0-rc.1", entry "c" "1.0.0+9", entry "d" "3.0.0"]
    ∃ ms early late, selectRange catalog "1.0.0" "2.0.0" = .ok ms ∧
      ms.Perm [entry "a" "v2.0.0", entry "b" "2.0.0-rc.1", entry "c" "1.0.0+9"] ∧
      selectRange catalog "1.0.0" " v2.0.0-rc.1" = .ok early ∧
      selectRange catalog " v2.0.0-rc.1" "2.0.0" = .ok late ∧
      ∀ m, m ∈ ms ↔ m ∈ early ∨ m ∈ late := by
  intro entry catalog
  obtain ⟨herror, hok⟩ := selectRange_exact catalog "1.0.0" "2.0.0"
  have hread : ∀ text ∈ "1.0.0" :: "2.0.0" :: catalog.map Migration.version,
      (readVersion text).isOk = true := by decide +kernel
  have hlo : readVersion "1.0.0" = .ok (.release 1 0 0) := by decide +kernel
  have hhi : readVersion "2.0.0" = .ok (.release 2 0 0) := by decide +kernel
  have hmid : readVersion " v2.0.0-rc.1" =
      .ok { Version.release 2 0 0 with pre := [.word ['r', 'c'], .number 1] } := by decide +kernel
  have hwithin : catalog.map (Migration.liesWithin (.release 1 0 0) (.release 2 0 0)) =
      [true, true, true, false] := by decide +kernel
  rcases h : selectRange catalog "1.0.0" "2.0.0" with e | ms
  · obtain ⟨text, hmem, e, he⟩ := herror.mp ⟨e, h⟩
    have := hread text hmem
    rw [he] at this
    cases this
  obtain ⟨lo, hi, hlo', hhi', S, hcut⟩ := hok ms h
  obtain rfl := Except.ok.inj (hlo.symm.trans hlo')
  obtain rfl := Except.ok.inj (hhi.symm.trans hhi')
  obtain ⟨early, late, hearly, hlate, hm⟩ := hcut _ _ hmid (by decide) (by decide)
  refine ⟨ms, early, late, rfl, ?_, hearly, hlate, fun m => (hm m).1⟩
  have hperm := S.perm
  simp only [catalog, List.map_cons, List.cons.injEq] at hwithin
  simpa [catalog, List.filter_cons, hwithin] using hperm

end Catalog

end Upkeep
