/-
Ranges that are versions are compared as versions.

A range may be a tag, or stand for a version, or neither.  Between two that stand for versions
the comparison is that of the full order, so it inherits the order's laws: any two of them
compare, and where neither supersedes the other they stand for the same version, build metadata
included.  The signs of a range have no say, nor does what it leaves out.
-/
import Upkeep.Proofs.Version.Supersession

namespace Upkeep.Version

variable {u v w : Version}

/-- The range is no tag and can be read as a version. -/
structure IsVersion (range : String) : Prop where
  untagged : tagRank? range = none
  readable : (coerce? range).isSome = true

variable {incoming existing a b c : String}

/-- Ranges that are versions are compared as what they stand for. -/
theorem supersedes_eq (hincoming : tagRank? incoming = none) (hexisting : tagRank? existing = none)
    (hv : coerce? incoming = some v) (hw : coerce? existing = some w) (orEqual : Bool) :
    supersedes incoming existing orEqual = if orEqual then decide (w ≤ v) else decide (w < v) := by
  unfold supersedes
  rw [hincoming, hexisting, hv, hw]

/-- **Ranges that are versions are in a total order.** -/
theorem supersedes_total_order (ha : IsVersion a) (hb : IsVersion b) (hc : IsVersion c) :
    ((supersedes a b false ∧ ¬supersedes b a false ∧ coerce? a ≠ coerce? b) ∨
      (¬supersedes a b false ∧ supersedes b a false ∧ coerce? a ≠ coerce? b) ∨
      (¬supersedes a b false ∧ ¬supersedes b a false ∧ coerce? a = coerce? b)) ∧
    (supersedes a b false → supersedes b c false → supersedes a c false) ∧
    (supersedes a b true ↔ ¬supersedes b a false) := by
  obtain ⟨u, hu⟩ := Option.isSome_iff_exists.mp ha.readable
  obtain ⟨v, hv⟩ := Option.isSome_iff_exists.mp hb.readable
  obtain ⟨w, hw⟩ := Option.isSome_iff_exists.mp hc.readable
  have hab : supersedes a b false = decide (v < u) :=
    supersedes_eq ha.untagged hb.untagged hu hv false
  have hba : supersedes b a false = decide (u < v) :=
    supersedes_eq hb.untagged ha.untagged hv hu false
  have hbc : supersedes b c false = decide (w < v) :=
    supersedes_eq hb.untagged hc.untagged hv hw false
  have hac : supersedes a c false = decide (w < u) :=
    supersedes_eq ha.untagged hc.untagged hu hw false
  have habEqual : supersedes a b true = decide (v ≤ u) :=
    supersedes_eq ha.untagged hb.untagged hu hv true
  have hsame : coerce? a = coerce? b ↔ v = u := by
    rw [hu, hv, Option.some.injEq]
    exact eq_comm
  simp only [hab, hba, hbc, hac, habEqual, ne_eq, hsame, decide_eq_true_eq]
  exact ⟨lt_cases v u, fun hvu hwv => lt_trans hwv hvu, not_lt_iff.symm⟩

/-- Build metadata that differ in a leading zero only, and a pre-release below both. -/
theorem supersedes_total_order_build :
    let a := "v1.0.0+05"
    let b := " 1.0.0+5"
    let c := "=1.0.0-rc.10"
    IsVersion a ∧ IsVersion b ∧ IsVersion c ∧ supersedes a b false ∧ supersedes b c false ∧
      supersedes a c false ∧ supersedes a b true ∧ ¬supersedes b a true := by
  intro a b c
  have ha : IsVersion a := ⟨by decide, by decide +kernel⟩
  have hb : IsVersion b := ⟨by decide, by decide +kernel⟩
  have hc : IsVersion c := ⟨by decide, by decide +kernel⟩
  obtain ⟨hcases, htrans, hequal⟩ := supersedes_total_order ha hb hc
  have hab : supersedes a b false = true := by decide +kernel
  have hbc : supersedes b c false = true := by decide +kernel
  have hba : ¬supersedes b a false = true := by
    rcases hcases with ⟨-, hnot, -⟩ | ⟨hnot, -⟩ | ⟨hnot, -⟩
    · exact hnot
    · exact absurd hab hnot
    · exact absurd hab hnot
  refine ⟨ha, hb, hc, hab, hbc, htrans hab hbc, hequal.mpr hba, ?_⟩
  exact mt (supersedes_total_order hb ha hc).2.2.mp (not_not.mpr hab)

end Upkeep.Version
