/-
The shortest decimal of a double is hardly larger than the double.

It lies in the interval of reals that round to the double, so it is at most half a last place
above it.  For every double but the greatest that is at most `ceiling`, the end of the
interval of the last double but one, and so clear of what is too large for a double.
-/
import Upkeep.Binary64.Shortest
import Upkeep.Proofs.Binary64.Rounding

namespace Upkeep.Binary64

variable {x : Binary64} {tie : Tie} {d : Decimal}

/-! ### Decimals as rational numbers -/

/-- The number that a decimal writes. -/
def Decimal.value (d : Decimal) : ℚ := d.coefficient * 10 ^ d.scale

theorem ten_zpow_pos (e : ℤ) : (0 : ℚ) < 10 ^ e := zpow_pos (by norm_num) e

/-- Dropping zeros keeps the number. -/
theorem value_stripZeros (fuel : ℕ) (d : Decimal) : (d.stripZeros fuel).value = d.value := by
  induction fuel generalizing d with
  | zero => rfl
  | succ fuel ih =>
      unfold Decimal.stripZeros
      split
      next h =>
        have hten : (d.coefficient : ℚ) = 10 * (d.coefficient / 10 : ℕ) := by
          exact_mod_cast (Nat.mul_div_cancel' (Nat.dvd_of_mod_eq_zero h.2)).symm
        rw [ih]
        unfold Decimal.value
        rw [hten, zpow_add_one₀ (by norm_num)]
        ring
      next => rfl

/-! ### Inside the interval -/

/-- The upper end of the interval of a double. -/
def upperEnd (x : Binary64) : ℚ := (4 * x.significand + 2) * 2 ^ (x.exponent - 2)

theorem le_upperEnd_of_contains {coefficient : ℕ} {scale : ℤ}
    (h : x.interval.contains coefficient scale = true) :
    (coefficient : ℚ) * 10 ^ scale ≤ x.upperEnd := by
  have hle : coefficient * 10 ^ scale.toNat * 2 ^ (2 - x.exponent).toNat ≤
      (4 * x.significand + 2) * 2 ^ (x.exponent - 2).toNat * 10 ^ (-scale).toNat := by
    unfold Interval.contains at h
    simp only at h
    split at h
    · exact of_decide_eq_true (Bool.and_eq_true_iff.mp h).2
    · exact (of_decide_eq_true (Bool.and_eq_true_iff.mp h).2).le
  have hcast : (coefficient : ℚ) * 10 ^ scale.toNat * 2 ^ (2 - x.exponent).toNat ≤
      (4 * x.significand + 2) * 2 ^ (x.exponent - 2).toNat * 10 ^ (-scale).toNat := by
    exact_mod_cast hle
  unfold upperEnd
  rw [zpow_eq_div (by norm_num) scale, zpow_eq_div (by norm_num) (x.exponent - 2), neg_sub,
    mul_div_assoc', mul_div_assoc', div_le_div_iff₀ (by positivity) (by positivity)]
  exact hcast

theorem contains_of_gridPoint? {i : Interval} {scale : ℤ} (h : i.gridPoint? tie scale = some d) :
    i.contains d.coefficient d.scale = true := by
  unfold Interval.gridPoint? at h
  simp only at h
  split at h
  · cases h
  next hbelow _ =>
    cases h
    exact hbelow
  next _ habove =>
    cases h
    exact habove
  next hbelow habove =>
    split at h
    · cases h
      exact hbelow
    split at h
    · cases h
      exact habove
    split at h
    · cases h
      show i.contains (if _ then _ else _) scale = true
      split
      · exact hbelow
      · exact habove
    · cases h
      exact habove

/-- The shortest decimal is no larger than the end of the interval, or than the significand,
which is taken where no grid has a point. -/
theorem value_shortest_le (tie : Tie) (x : Binary64) :
    (shortest tie x).value ≤ x.upperEnd ∨ (shortest tie x).value = x.significand := by
  unfold shortest
  simp only [value_stripZeros]
  cases hfound : (List.range 17).findSome? fun n : ℕ =>
      x.interval.gridPoint? tie (x.interval.magnitude - (n : ℤ)) with
  | none =>
      right
      simp [Decimal.value]
  | some d =>
      left
      obtain ⟨n, -, hn⟩ := List.exists_of_findSome?_eq_some hfound
      exact le_upperEnd_of_contains (contains_of_gridPoint? hn)

/-! ### Clear of what overflows -/

/-- The exponent of a half of the last place of the greatest doubles. -/
def ceilingExponent : ℕ := 970

/-- The upper end of the interval of the last double but one. -/
def ceiling : ℚ := (2 ^ 54 - 3) * 2 ^ (ceilingExponent : ℤ)

/-- The double of the greatest magnitude. -/
def IsGreatest (x : Binary64) : Prop :=
  x.significand = 2 ^ 53 - 1 ∧ x.exponent = greatestExponent

theorem upperEnd_le_ceiling (h : x.InRange) (hgreatest : ¬x.IsGreatest) :
    x.upperEnd ≤ ceiling := by
  have hsignificand := h.significand
  have hceiling : ceiling = (2 ^ 55 - 6) * 2 ^ (969 : ℤ) := by
    unfold ceiling
    rw [show (ceilingExponent : ℤ) = 969 + 1 by rfl, two_zpow_succ]
    ring
  unfold upperEnd
  rw [hceiling]
  by_cases hexponent : x.exponent = greatestExponent
  · have hne : x.significand ≠ 2 ^ 53 - 1 := fun hs => hgreatest ⟨hs, hexponent⟩
    have hle : x.significand + 2 ≤ 2 ^ 53 := by omega
    have hcast : (x.significand : ℚ) + 2 ≤ 2 ^ 53 := by exact_mod_cast hle
    rw [hexponent]
    exact mul_le_mul_of_nonneg_right (by linarith) (two_zpow_pos _).le
  · have hless : x.exponent - 2 ≤ 968 := by
      have hgreat := h.greatest
      unfold greatestExponent at hgreat hexponent
      omega
    have hcast : (x.significand : ℚ) + 1 ≤ 2 ^ 53 := by exact_mod_cast hsignificand
    calc (4 * (x.significand : ℚ) + 2) * 2 ^ (x.exponent - 2)
        ≤ (2 ^ 55 - 2) * 2 ^ (968 : ℤ) :=
          mul_le_mul (by linarith) (two_zpow_le hless) (two_zpow_pos _).le (by norm_num)
      _ ≤ (2 ^ 55 - 6) * 2 ^ (969 : ℤ) := by
          rw [show (969 : ℤ) = 968 + 1 by rfl, two_zpow_succ, ← mul_assoc]
          exact mul_le_mul_of_nonneg_right (by norm_num) (two_zpow_pos _).le

theorem significand_le_ceiling (h : x.InRange) : (x.significand : ℚ) ≤ ceiling := by
  have hlt : (x.significand : ℚ) < 2 ^ 53 := by exact_mod_cast h.significand
  have hone : (1 : ℚ) ≤ 2 ^ (ceilingExponent : ℤ) := one_le_zpow₀ (by norm_num) (by omega)
  calc (x.significand : ℚ) ≤ (2 ^ 54 - 3) * 1 := by linarith
    _ ≤ ceiling := mul_le_mul_of_nonneg_left hone (by norm_num)

/-- **The shortest decimal of a double that is not the greatest is clear of what is too
large.** -/
theorem value_shortest_le_ceiling (tie : Tie) (h : x.InRange) (hgreatest : ¬x.IsGreatest) :
    (shortest tie x).value ≤ ceiling := by
  rcases value_shortest_le tie x with hend | hsignificand
  · exact hend.trans (upperEnd_le_ceiling h hgreatest)
  · rw [hsignificand]
    exact significand_le_ceiling h

end Upkeep.Binary64
