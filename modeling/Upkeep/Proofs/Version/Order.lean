/-
The two orders of versions.

Precedence is a preorder in which any two versions compare; versions of one precedence differ
in nothing but their build metadata.  The full order compares those last, and in it only a
version itself is as great as itself: two numeric identifiers of build metadata with the same
value are told apart by their leading zeros, that is by their length.

What lies between two versions by the full order therefore lies between them by precedence,
and the build metadata have a say only for versions that share the precedence of an end.
-/
import Upkeep.Proofs.Text.Digits
import Upkeep.Version

namespace Upkeep

/-! ### Identifiers -/

instance : Std.TransOrd Identifier :=
  inferInstanceAs (Std.TransCmp (compareLex (compareOn Identifier.rank)
    (compareLex (compareOn Identifier.value) (compareOn Identifier.letters))))

instance : Std.LawfulEqOrd Identifier where
  eq_of_compare {a b} h := by
    have h : compareLex (compareOn Identifier.rank)
      (compareLex (compareOn Identifier.value) (compareOn Identifier.letters)) a b = .eq := h
    simp only [compareLex_eq_eq, compareOn, Std.compare_eq_iff_eq] at h
    obtain ⟨hrank, hvalue, hletters⟩ := h
    cases a with
    | number n => cases b with
      | number m => exact congrArg _ hvalue
      | word ds => simp [Identifier.rank] at hrank
    | word cs => cases b with
      | number m => simp [Identifier.rank] at hrank
      | word ds => exact congrArg _ hletters

instance : Std.TransCmp compareBuild := by
  unfold compareBuild
  infer_instance

instance : Std.LawfulEqCmp compareBuild where
  compare_self := Std.ReflCmp.compare_self
  eq_of_compare {cs ds} h := by
    unfold compareBuild at h
    simp only [compareLex_eq_eq, compareOn, Std.compare_eq_iff_eq] at h
    obtain ⟨hnumeric, hvalue, hlength, hletters⟩ := h
    by_cases hcs : isNumeric cs = true
    · have hds : isNumeric ds = true := by simpa [hcs] using hnumeric
      rw [if_pos hcs, if_pos hds] at hvalue hlength
      exact Text.valueOfDigits_inj (List.all_eq_true.mp hcs) (List.all_eq_true.mp hds) hlength
        hvalue
    · have hds : ¬isNumeric ds = true := by simpa [hcs] using hnumeric
      rwa [if_neg hcs, if_neg hds] at hletters

namespace Version

variable {u v w : Version}

/-- The order of the build metadata of versions. -/
def compareBuilds (v w : Version) : Ordering := List.compareLex compareBuild v.build w.build

/-! ### Precedence -/

instance : Std.TransCmp precedence := by
  unfold precedence
  infer_instance

/-- Versions have one precedence exactly when they differ in nothing but build metadata. -/
theorem precedence_eq_iff : precedence v w = .eq ↔ { v with build := w.build } = w := by
  unfold precedence
  simp only [compareLex_eq_eq, compareOn, Std.compare_eq_iff_eq]
  constructor
  · rintro ⟨hmajor, hminor, hpatch, -, hpre⟩
    cases v
    cases w
    simp only at hmajor hminor hpatch hpre
    subst hmajor hminor hpatch hpre
    rfl
  · intro h
    rw [← h]
    exact ⟨rfl, rfl, rfl, rfl, rfl⟩

/-! ### The full order -/

theorem compare_eq (v w : Version) :
    compare v w = (precedence v w).then (compareBuilds v w) := rfl

instance : Std.TransCmp compareBuilds where
  eq_swap {v w} := by
    unfold compareBuilds
    exact Std.OrientedCmp.eq_swap
  isLE_trans {u v w} huv hvw := by
    unfold compareBuilds at huv hvw ⊢
    exact Std.TransCmp.isLE_trans huv hvw

instance : Std.TransOrd Version :=
  inferInstanceAs (Std.TransCmp (compareLex precedence compareBuilds))

instance : Std.LawfulEqOrd Version where
  eq_of_compare {v w} h := by
    rw [compare_eq, Ordering.then_eq_eq] at h
    obtain ⟨hprecedence, hbuilds⟩ := h
    have hbuild : v.build = w.build := Std.LawfulEqCmp.eq_of_compare hbuilds
    rw [precedence_eq_iff, ← hbuild] at hprecedence
    exact hprecedence

theorem le_trans (huv : u ≤ v) (hvw : v ≤ w) : u ≤ w := Std.TransOrd.isLE_trans huv hvw

theorem le_total (v w : Version) : v ≤ w ∨ w ≤ v := by
  have hswap : compare v w = (compare w v).swap := Std.OrientedOrd.eq_swap
  show (compare v w).isLE = true ∨ (compare w v).isLE = true
  rw [hswap]
  cases compare w v <;> simp

theorem lt_trans (huv : u < v) (hvw : v < w) : u < w := Std.TransCmp.lt_trans huv hvw

theorem not_lt_iff : ¬v < w ↔ w ≤ v := by
  have hswap : compare w v = (compare v w).swap := Std.OrientedOrd.eq_swap
  show ¬compare v w = .lt ↔ (compare w v).isLE = true
  rw [hswap]
  cases compare v w <;> simp

theorem le_antisymm (hvw : v ≤ w) (hwv : w ≤ v) : v = w :=
  Std.LawfulEqOrd.eq_of_compare (Std.OrientedCmp.isLE_antisymm hvw hwv)

/-- Two versions are one, or one of them is less than the other, and only one of the three is
so. -/
theorem lt_cases (v w : Version) :
    (v < w ∧ ¬w < v ∧ v ≠ w) ∨ (¬v < w ∧ w < v ∧ v ≠ w) ∨ (¬v < w ∧ ¬w < v ∧ v = w) := by
  have hswap : compare w v = (compare v w).swap := Std.OrientedOrd.eq_swap
  have heq : v = w ↔ compare v w = .eq := Std.compare_eq_iff_eq.symm
  have hlt : v < w ↔ compare v w = .lt := Iff.rfl
  have hgt : w < v ↔ compare w v = .lt := Iff.rfl
  rw [hlt, hgt, hswap, ne_eq, heq]
  cases compare v w <;> simp

/-- One version is at most another if it is by precedence, and by build metadata where they
share one precedence. -/
theorem le_iff : v ≤ w ↔
    (precedence v w).isLE = true ∧ (precedence v w = .eq → (compareBuilds v w).isLE = true) := by
  show (compare v w).isLE = true ↔ _
  rw [compare_eq]
  cases precedence v w with
  | lt => simp
  | eq => simp
  | gt => simp

end Version

end Upkeep
