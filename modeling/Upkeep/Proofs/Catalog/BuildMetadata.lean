/-
What build metadata do to a selection.

A range goes by the full order of versions and so counts build metadata, which precedence
does not.  The two part only for entries that share the precedence of an end: one that lies in
the range by precedence is left out exactly where its build metadata fall outside of that
end's.  Since the metadata of an end count in the same way, writing other metadata at an end
or in the catalog can change what is selected, and changes it for such entries only.
-/
import Upkeep.Proofs.Catalog.Selection

namespace Upkeep

namespace Version

variable {lo lo' hi hi' v v' : Version}

/-- The version lies between the two by precedence. -/
def RanksWithin (lo hi v : Version) : Prop :=
  (precedence lo v).isLE = true ∧ (precedence v hi).isLE = true

/-- Where the version has the precedence of an end, its build metadata are not outside of that
end's. -/
def BuildsWithin (lo hi v : Version) : Prop :=
  (precedence lo v = .eq → (compareBuilds lo v).isLE = true) ∧
    (precedence v hi = .eq → (compareBuilds v hi).isLE = true)

instance (lo hi v : Version) : Decidable (RanksWithin lo hi v) := by
  unfold RanksWithin
  infer_instance

instance (lo hi v : Version) : Decidable (BuildsWithin lo hi v) := by
  unfold BuildsWithin
  infer_instance

/-- Between two versions lies what does so by precedence and, where that does not decide, by
build metadata. -/
theorem within_iff : lo ≤ v ∧ v ≤ hi ↔ RanksWithin lo hi v ∧ BuildsWithin lo hi v := by
  rw [le_iff, le_iff]
  unfold RanksWithin BuildsWithin
  constructor
  · rintro ⟨⟨hfirst, hfirst'⟩, hlast, hlast'⟩
    exact ⟨⟨hfirst, hlast⟩, hfirst', hlast'⟩
  · rintro ⟨⟨hfirst, hlast⟩, hfirst', hlast'⟩
    exact ⟨⟨hfirst, hfirst'⟩, hlast, hlast'⟩

/-- Precedence does not tell versions of one precedence apart. -/
theorem precedence_congr (hv : precedence v v' = .eq) (hlo : precedence lo lo' = .eq) :
    precedence lo v = precedence lo' v' := by
  rw [Std.TransCmp.congr_left hlo, Std.TransCmp.congr_right hv]

theorem ranksWithin_congr (hlo : precedence lo lo' = .eq) (hhi : precedence hi hi' = .eq)
    (hv : precedence v v' = .eq) : RanksWithin lo hi v ↔ RanksWithin lo' hi' v' := by
  unfold RanksWithin
  rw [precedence_congr hv hlo, precedence_congr hhi hv]

end Version

namespace Migration

/-- The migration belongs to a version that lies between the two by precedence. -/
def RanksWithin (lo hi : Version) (m : Migration) : Prop :=
  ∃ v, m.version? = some v ∧ Version.RanksWithin lo hi v

/-- The build metadata of the migration's version are not outside of those of an end that it
shares the precedence of. -/
def BuildsWithin (lo hi : Version) (m : Migration) : Prop :=
  ∃ v, m.version? = some v ∧ Version.BuildsWithin lo hi v

/-- The versions of two migrations differ in nothing but build metadata. -/
def SameRank (m m' : Migration) : Prop :=
  ∃ v v', m.version? = some v ∧ m'.version? = some v' ∧ Version.precedence v v' = .eq

variable {lo lo' hi hi' : Version} {m m' : Migration}

theorem liesWithin_iff_ranks :
    m.liesWithin lo hi = true ↔ m.RanksWithin lo hi ∧ m.BuildsWithin lo hi := by
  rw [liesWithin_iff]
  constructor
  · rintro ⟨v, hv, hwithin⟩
    obtain ⟨hranks, hbuilds⟩ := Version.within_iff.mp hwithin
    exact ⟨⟨v, hv, hranks⟩, v, hv, hbuilds⟩
  · rintro ⟨⟨v, hv, hranks⟩, w, hw, hbuilds⟩
    obtain rfl := Option.some.inj (hv.symm.trans hw)
    exact ⟨v, hv, Version.within_iff.mpr ⟨hranks, hbuilds⟩⟩

theorem SameRank.ranksWithin_iff (hm : m.SameRank m') (hlo : Version.precedence lo lo' = .eq)
    (hhi : Version.precedence hi hi' = .eq) : m.RanksWithin lo hi ↔ m'.RanksWithin lo' hi' := by
  obtain ⟨v, v', hv, hv', hsame⟩ := hm
  unfold RanksWithin
  rw [hv, hv']
  simpa using Version.ranksWithin_congr hlo hhi hsame

end Migration

namespace Catalog

/-- **Precedence alone does not decide what is selected.**  An entry is selected when it lies
in the range by precedence and its build metadata do not fall outside of those of an end
that it shares the precedence of.  So the selection is the one by precedence exactly where no
build metadata fall outside; and of two calls that differ in nothing but build metadata, be
they those of an end or of an entry, both select an entry or neither does exactly where its
metadata fall outside in both or in neither. -/
theorem selectRange_eq_by_precedence_iff (catalog : List Migration) (first last : String)
    (ms : List Migration) (h : selectRange catalog first last = .ok ms) :
    ∃ lo hi, readVersion first = .ok lo ∧ readVersion last = .ok hi ∧
      (∀ m ∈ catalog, m ∈ ms ↔ m.RanksWithin lo hi ∧ m.BuildsWithin lo hi) ∧
      ((∀ m ∈ catalog, m ∈ ms ↔ m.RanksWithin lo hi) ↔
        ∀ m ∈ catalog, m.RanksWithin lo hi → m.BuildsWithin lo hi) ∧
      ∀ catalog' first' last' ms' lo' hi', selectRange catalog' first' last' = .ok ms' →
        readVersion first' = .ok lo' → readVersion last' = .ok hi' →
        Version.precedence lo lo' = .eq → Version.precedence hi hi' = .eq →
        ∀ m ∈ catalog, ∀ m' ∈ catalog', m.SameRank m' →
          ((m ∈ ms ↔ m' ∈ ms') ↔
            (m.RanksWithin lo hi → (m.BuildsWithin lo hi ↔ m'.BuildsWithin lo' hi'))) := by
  have hmem : ∀ {catalog ms : List Migration} {lo hi : Version}, Selects lo hi catalog ms →
      ∀ m ∈ catalog, m ∈ ms ↔ m.RanksWithin lo hi ∧ m.BuildsWithin lo hi := by
    intro catalog ms lo hi S m hm
    rw [S.mem_iff, and_iff_right hm, Migration.liesWithin_iff_ranks]
  obtain ⟨lo, hi, -, hlo, hhi, -, S⟩ := selectRange_ok h
  refine ⟨lo, hi, hlo, hhi, hmem S, ?_, ?_⟩
  · refine forall₂_congr fun m hm => ?_
    rw [hmem S m hm, and_iff_left_iff_imp]
  · intro catalog' first' last' ms' lo' hi' h' hlo' hhi' hsamelo hsamehi m hm m' hm' hsame
    obtain ⟨lo₁, hi₁, -, hlo₁, hhi₁, -, S'⟩ := selectRange_ok h'
    obtain rfl := Except.ok.inj (hlo'.symm.trans hlo₁)
    obtain rfl := Except.ok.inj (hhi'.symm.trans hhi₁)
    rw [hmem S m hm, hmem S' m' hm', ← hsame.ranksWithin_iff hsamelo hsamehi]
    exact and_congr_right_iff

/-- Build metadata at the lower end of a range leave out an entry of the same precedence, which
is selected where the end is written without them. -/
theorem selectRange_ne_by_precedence :
    let m : Migration := ⟨"a", "1.0.0", "", .ofEdit "a" none fun o _ => .ok o⟩
    ∃ ms ms', selectRange [m] "1.0.0+1" "2.0.0" = .ok ms ∧
      selectRange [m] "1.0.0" "2.0.0" = .ok ms' ∧ m ∉ ms ∧ m ∈ ms' := by
  intro m
  have hread : readVersion "1.0.0" = .ok (.release 1 0 0) := by decide +kernel
  have hplus : readVersion "1.0.0+1" = .ok { Version.release 1 0 0 with build := [['1']] } := by
    decide +kernel
  have hlast : readVersion "2.0.0" = .ok (.release 2 0 0) := by decide +kernel
  have hentries : readVersions [m] = .ok [(.release 1 0 0, m)] := by
    simp [readVersions, m, hread, bind, Except.bind]
  have hm : m.version? = some (.release 1 0 0) := Migration.version?_eq_some_iff.mpr hread
  have h := selectRange_of_read hplus hlast hentries
  have h' := selectRange_of_read hread hlast hentries
  refine ⟨_, _, h, h', fun hmem => ?_, ?_⟩
  · obtain ⟨lo, hi, hlo, -, hselected, -⟩ := selectRange_eq_by_precedence_iff [m] _ _ _ h
    obtain rfl := Except.ok.inj (hplus.symm.trans hlo)
    obtain ⟨-, v, hv, hbuilds, -⟩ := (hselected m List.mem_cons_self).mp hmem
    obtain rfl := Option.some.inj (hm.symm.trans hv)
    exact absurd (hbuilds (by decide)) (by decide)
  · obtain ⟨lo, hi, hlo, hhi, hselected, -⟩ := selectRange_eq_by_precedence_iff [m] _ _ _ h'
    obtain rfl := Except.ok.inj (hread.symm.trans hlo)
    obtain rfl := Except.ok.inj (hlast.symm.trans hhi)
    refine (hselected m List.mem_cons_self).mpr ⟨⟨_, hm, by decide⟩, _, hm, by decide⟩

end Catalog

end Upkeep
