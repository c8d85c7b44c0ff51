/-
Rounding to a double does not turn the order round.

The magnitude of a double is a rational number.  A quotient is rounded in its binade: the
significand is the natural number nearest to it in units of the last place, ties to the even
one.  `Nearest` says this of a significand and an exponent, without the carry to the next
binade, which does not change the magnitude; and it says enough to compare the results of any
two roundings.

So nothing overflows that is not larger than what does not overflow, whatever the operation
and the signs: to see that a sum of cases goes through, it is enough to look at the largest.
-/
import Mathlib.Algebra.Order.Field.Power
import Mathlib.Data.Rat.Cast.Order
import Mathlib.Tactic.FieldSimp
import Mathlib.Tactic.Linarith
import Mathlib.Tactic.Positivity
import Mathlib.Tactic.Ring
import Upkeep.Binary64

namespace Upkeep.Binary64

/-! ### Powers of two -/

theorem two_zpow_pos (e : ℤ) : (0 : ℚ) < 2 ^ e := zpow_pos (by norm_num) e

theorem two_zpow_le {a b : ℤ} (h : a ≤ b) : (2 : ℚ) ^ a ≤ 2 ^ b :=
  zpow_le_zpow_right₀ (by norm_num) h

theorem two_zpow_succ (e : ℤ) : (2 : ℚ) ^ (e + 1) = 2 * 2 ^ e := by
  rw [zpow_add_one₀ (by norm_num)]
  ring

/-- A power of any base, with its exponent split into two natural ones. -/
theorem zpow_eq_div {b : ℚ} (hb : b ≠ 0) (e : ℤ) : b ^ e = b ^ e.toNat / b ^ (-e).toNat := by
  rw [← zpow_natCast, ← zpow_natCast, ← zpow_sub₀ hb]
  congr 1
  omega

/-- A quotient with powers of two in its two parts is the quotient times a power of two. -/
theorem ratio_scaled (num den : ℕ) (e : ℤ) :
    ((num * 2 ^ e.toNat : ℕ) : ℚ) / ((den * 2 ^ (-e).toNat : ℕ) : ℚ) = num / den * 2 ^ e := by
  rw [zpow_eq_div (by norm_num) e]
  push_cast
  rw [mul_div_mul_comm]

/-! ### The nearest natural number -/

/-- The natural number is nearest to the rational one, and even where another is as near. -/
structure Rounds (q : ℚ) (n : ℕ) : Prop where
  below : n ≤ q + 1 / 2
  above : q ≤ n + 1 / 2
  tie_below : n = q + 1 / 2 → Even n
  tie_above : q = n + 1 / 2 → Even n

theorem rounds_roundHalfEven (num : ℕ) {den : ℕ} (hden : 0 < den) :
    Rounds (num / den) (roundHalfEven num den) := by
  have hpos : (0 : ℚ) < den := by exact_mod_cast hden
  have hsplit : (num : ℚ) = den * (num / den : ℕ) + (num % den : ℕ) := by
    exact_mod_cast (Nat.div_add_mod num den).symm
  obtain ⟨r, hr⟩ : ∃ r : ℚ, r = (num % den : ℕ) / den := ⟨_, rfl⟩
  have hrest : ((num % den : ℕ) : ℚ) = r * den := by
    rw [hr]
    field_simp
  have hq : (num : ℚ) / den = (num / den : ℕ) + r := by
    rw [hsplit, hr]
    field_simp
  have hnonneg : 0 ≤ r := by
    rw [hr]
    positivity
  have hone : r < 1 := by
    rw [hr, div_lt_one hpos]
    exact_mod_cast Nat.mod_lt num hden
  have hlt : 2 * (num % den) < den ↔ r < 1 / 2 := by
    rw [← Nat.cast_lt (α := ℚ)]
    push_cast
    rw [hrest]
    constructor <;> intro h <;> nlinarith
  have hgt : den < 2 * (num % den) ↔ 1 / 2 < r := by
    rw [← Nat.cast_lt (α := ℚ)]
    push_cast
    rw [hrest]
    constructor <;> intro h <;> nlinarith
  unfold roundHalfEven
  simp only [hlt, hgt]
  rw [hq]
  split_ifs with hbelow habove heven
  · constructor <;> intros <;> linarith
  · constructor <;> push_cast <;> intros <;> linarith
  · have hhalf : r = 1 / 2 := le_antisymm (not_lt.mp habove) (not_lt.mp hbelow)
    have heven : Even (num / den) := Nat.even_iff.mpr heven
    constructor <;> intros <;> first | exact heven | linarith
  · have hhalf : r = 1 / 2 := le_antisymm (not_lt.mp habove) (not_lt.mp hbelow)
    have heven : Even (num / den + 1) := Nat.even_add_one.mpr (mt Nat.even_iff.mp heven)
    constructor <;> intros <;> first | exact heven | (push_cast; linarith)

theorem Rounds.mono {q q' : ℚ} {n n' : ℕ} (R : Rounds q n) (R' : Rounds q' n') (h : q ≤ q') :
    n ≤ n' := by
  by_contra hlt
  have hsucc : (n' : ℚ) + 1 ≤ n := by exact_mod_cast Nat.lt_of_not_le hlt
  have hn : (n : ℚ) = n' + 1 := le_antisymm (by linarith [R.below, R'.above]) hsucc
  have heven := R.tie_below (le_antisymm R.below (by linarith [R'.above]))
  have heven' := R'.tie_above (le_antisymm R'.above (by linarith [R.below]))
  have hnat : n = n' + 1 := by exact_mod_cast hn
  rw [hnat] at heven
  exact (Nat.even_add_one.mp heven) heven'

/-! ### The binade of a quotient -/

theorem two_pow_log2_le {n : ℕ} (hn : 0 < n) : (2 : ℚ) ^ (n.log2 : ℤ) ≤ n := by
  rw [zpow_natCast]
  exact_mod_cast Nat.log2_self_le hn.ne'

theorem lt_two_pow_log2 (n : ℕ) : (n : ℚ) < 2 ^ ((n.log2 : ℤ) + 1) := by
  rw [show (n.log2 : ℤ) + 1 = ((n.log2 + 1 : ℕ) : ℤ) by push_cast; rfl, zpow_natCast]
  exact_mod_cast Nat.lt_log2_self

variable {num den : ℕ}

theorem ratio_bounds (hnum : 0 < num) (hden : 0 < den) :
    (2 : ℚ) ^ ((num.log2 : ℤ) - den.log2 - 1) < num / den ∧
      (num : ℚ) / den < 2 ^ ((num.log2 : ℤ) - den.log2 + 1) := by
  have hpos : (0 : ℚ) < den := by exact_mod_cast hden
  have hlow := two_pow_log2_le hnum
  have hhigh := lt_two_pow_log2 num
  have hlow' := two_pow_log2_le hden
  have hhigh' := lt_two_pow_log2 den
  rw [lt_div_iff₀ hpos, div_lt_iff₀ hpos]
  constructor
  · calc (2 : ℚ) ^ ((num.log2 : ℤ) - den.log2 - 1) * den
        < 2 ^ ((num.log2 : ℤ) - den.log2 - 1) * 2 ^ ((den.log2 : ℤ) + 1) :=
          mul_lt_mul_of_pos_left hhigh' (two_zpow_pos _)
      _ = 2 ^ (num.log2 : ℤ) := by
          rw [← zpow_add₀ (by norm_num)]
          congr 1
          ring
      _ ≤ num := hlow
  · calc (num : ℚ) < 2 ^ ((num.log2 : ℤ) + 1) := hhigh
      _ = 2 ^ ((num.log2 : ℤ) - den.log2 + 1) * 2 ^ (den.log2 : ℤ) := by
          rw [← zpow_add₀ (by norm_num)]
          congr 1
          ring
      _ ≤ 2 ^ ((num.log2 : ℤ) - den.log2 + 1) * den :=
          mul_le_mul_of_nonneg_left hlow' (two_zpow_pos _).le

/-- The quotient lies between its power of two and the next one. -/
theorem floorLog2_bounds (hnum : 0 < num) (hden : 0 < den) :
    (2 : ℚ) ^ floorLog2 num den ≤ num / den ∧ (num : ℚ) / den < 2 ^ (floorLog2 num den + 1) := by
  obtain ⟨hlow, hhigh⟩ := ratio_bounds hnum hden
  obtain ⟨k, hk⟩ : ∃ k : ℤ, k = (num.log2 : ℤ) - den.log2 := ⟨_, rfl⟩
  have htest : den * Nat.pow 2 k.toNat ≤ num * Nat.pow 2 (-k).toNat ↔ (2 : ℚ) ^ k ≤ num / den := by
    have hpos : (0 : ℚ) < den := by exact_mod_cast hden
    have htwo : (0 : ℚ) < 2 ^ (-k).toNat := by positivity
    rw [zpow_eq_div (by norm_num) k, div_le_div_iff₀ htwo hpos, ← Nat.cast_le (α := ℚ)]
    push_cast [Nat.pow_eq]
    rw [mul_comm (den : ℚ)]
  rw [← hk] at hlow hhigh
  unfold floorLog2
  simp only [← hk]
  split
  next h => exact ⟨htest.mp h, hhigh⟩
  next h =>
    rw [sub_add_cancel]
    exact ⟨hlow.le, not_le.mp (mt htest.mpr h)⟩

/-! ### The nearest double -/

/-- The significand is the quotient in units of the last place of its binade, rounded; the
binade is that of the quotient, or the least one. -/
structure Nearest (q : ℚ) (m : ℕ) (e : ℤ) : Prop where
  least : leastExponent ≤ e
  rounds : Rounds (q / 2 ^ e) m
  below : q < 2 ^ (e + 53)
  binade : e = leastExponent ∨ 2 ^ (e + 52) ≤ q

variable {q q' : ℚ} {m m' : ℕ} {e e' : ℤ}

theorem two_zpow_add (e : ℤ) (k : ℕ) : (2 : ℚ) ^ (e + k) = 2 ^ k * 2 ^ e := by
  rw [zpow_add₀ (by norm_num), zpow_natCast, mul_comm]

theorem Nearest.significand_le (N : Nearest q m e) : m ≤ 2 ^ 53 := by
  have hlt : q / 2 ^ e < 2 ^ 53 := by
    rw [div_lt_iff₀ (two_zpow_pos e), ← two_zpow_add e 53]
    exact_mod_cast N.below
  have hm : (m : ℚ) < 2 ^ 53 + 1 := by linarith [N.rounds.below]
  have hnat : m < 2 ^ 53 + 1 := by exact_mod_cast hm
  omega

theorem Nearest.le_significand (N : Nearest q m e) (h : 2 ^ (e + 52) ≤ q) : 2 ^ 52 ≤ m := by
  have hle : 2 ^ 52 ≤ q / 2 ^ e := by
    rw [le_div_iff₀ (two_zpow_pos e), ← two_zpow_add e 52]
    exact_mod_cast h
  have hm : (2 : ℚ) ^ 52 < m + 1 := by linarith [N.rounds.above]
  have hnat : 2 ^ 52 < m + 1 := by exact_mod_cast hm
  omega

/-- **Of two quotients the smaller one is not rounded to the larger magnitude.** -/
theorem Nearest.mono (N : Nearest q m e) (N' : Nearest q' m' e') (h : q ≤ q') :
    (m : ℚ) * 2 ^ e ≤ m' * 2 ^ e' := by
  rcases lt_trichotomy e e' with hlt | rfl | hgt
  · have hbinade : 2 ^ (e' + 52) ≤ q' := N'.binade.resolve_left (by have := N.least; omega)
    calc (m : ℚ) * 2 ^ e ≤ 2 ^ 53 * 2 ^ e :=
          mul_le_mul_of_nonneg_right (by exact_mod_cast N.significand_le) (two_zpow_pos e).le
      _ = 2 ^ 52 * 2 ^ (e + 1) := by
          rw [two_zpow_succ]
          ring
      _ ≤ 2 ^ 52 * 2 ^ e' := mul_le_mul_of_nonneg_left (two_zpow_le hlt) (by positivity)
      _ ≤ m' * 2 ^ e' :=
          mul_le_mul_of_nonneg_right (by exact_mod_cast N'.le_significand hbinade)
            (two_zpow_pos e').le
  · have hq : q / 2 ^ e ≤ q' / 2 ^ e := div_le_div_of_nonneg_right h (two_zpow_pos e).le
    exact mul_le_mul_of_nonneg_right (by exact_mod_cast N.rounds.mono N'.rounds hq)
      (two_zpow_pos e).le
  · have hbinade : 2 ^ (e + 52) ≤ q := N.binade.resolve_left (by have := N'.least; omega)
    have hpow : (2 : ℚ) ^ (e' + 53) ≤ 2 ^ (e + 52) := two_zpow_le (by omega)
    exact absurd (hbinade.trans h) (not_le.mpr (N'.below.trans_le hpow))

/-! ### Doubles as they are stored -/

/-- The magnitude of a double. -/
def magnitude (x : Binary64) : ℚ := x.significand * 2 ^ x.exponent

/-- The significand has at most 53 binary places, and the exponent is one of a double. -/
structure InRange (x : Binary64) : Prop where
  significand : x.significand < 2 ^ 53
  least : leastExponent ≤ x.exponent
  greatest : x.exponent ≤ greatestExponent

variable {x y x' y' : Binary64} {negative negative' : Bool} {num' den' : ℕ}

theorem magnitude_nonneg (x : Binary64) : 0 ≤ x.magnitude :=
  mul_nonneg (Nat.cast_nonneg _) (two_zpow_pos _).le

theorem inRange_zero (negative : Bool) : (zero negative).InRange :=
  ⟨show 0 < 2 ^ 53 by decide, le_refl _, show leastExponent ≤ greatestExponent by decide⟩

theorem magnitude_zero (negative : Bool) : (zero negative).magnitude = 0 := by
  unfold magnitude zero
  simp

theorem InRange.neg (h : x.InRange) : x.neg.InRange := ⟨h.significand, h.least, h.greatest⟩

theorem InRange.magnitude_lt (h : x.InRange) : x.magnitude < 2 ^ (1024 : ℤ) := by
  have hpow : (2 : ℚ) ^ x.exponent ≤ 2 ^ greatestExponent := two_zpow_le h.greatest
  calc x.magnitude < 2 ^ 53 * 2 ^ x.exponent :=
        mul_lt_mul_of_pos_right (by exact_mod_cast h.significand) (two_zpow_pos _)
    _ ≤ 2 ^ 53 * 2 ^ greatestExponent := mul_le_mul_of_nonneg_left hpow (by positivity)
    _ = 2 ^ (1024 : ℤ) := by
        rw [← two_zpow_add]
        rfl

/-- The significand that is computed for a quotient is the nearest one. -/
theorem nearest_roundHalfEven (hnum : 0 < num) (hden : 0 < den)
    (he : e = max leastExponent (floorLog2 num den - 52)) :
    Nearest (num / den)
      (roundHalfEven (num * Nat.pow 2 (-e).toNat) (den * Nat.pow 2 e.toNat)) e := by
  obtain ⟨hlow, hhigh⟩ := floorLog2_bounds hnum hden
  refine ⟨?_, ?_, ?_, ?_⟩
  · rw [he]
    exact le_max_left _ _
  · have hscaled : 0 < den * 2 ^ e.toNat := Nat.mul_pos hden (by positivity)
    have hround := rounds_roundHalfEven (num * 2 ^ (-e).toNat) hscaled
    have hratio := ratio_scaled num den (-e)
    rw [neg_neg] at hratio
    rw [hratio, zpow_neg, ← div_eq_mul_inv] at hround
    exact hround
  · refine hhigh.trans_le (two_zpow_le ?_)
    omega
  · rcases max_choice leastExponent (floorLog2 num den - 52) with hleast | hlog
    · exact .inl (he.trans hleast)
    · right
      rw [he, hlog, sub_add_cancel]
      exact hlow

/-- A significand with all its binary places overflows as soon as the exponent does. -/
theorem le_of_greatestExponent_lt (hm : 2 ^ 52 ≤ m) (he : greatestExponent < e) :
    2 ^ (1024 : ℤ) ≤ (m : ℚ) * 2 ^ e := by
  have hpow : (2 : ℚ) ^ (972 : ℤ) ≤ 2 ^ e := two_zpow_le he
  calc (2 : ℚ) ^ (1024 : ℤ) = 2 ^ 52 * 2 ^ (972 : ℤ) := by
        rw [← two_zpow_add]
        rfl
    _ ≤ m * 2 ^ e := mul_le_mul (by exact_mod_cast hm) hpow (by positivity) (by positivity)

/-- **A quotient is rounded to the nearest double, and overflows exactly where that is too
large.** -/
theorem ofRatio?_cases (hnum : 0 < num) (hden : 0 < den) (negative : Bool) :
    ∃ m e, Nearest (num / den) m e ∧
      ((ofRatio? negative num den = none ∧ 2 ^ (1024 : ℤ) ≤ (m : ℚ) * 2 ^ e) ∨
        ∃ x, ofRatio? negative num den = some x ∧ x.InRange ∧ x.magnitude = m * 2 ^ e) := by
  obtain ⟨e, he⟩ : ∃ e, e = max leastExponent (floorLog2 num den - 52) := ⟨_, rfl⟩
  obtain ⟨m, hm⟩ : ∃ m, m = roundHalfEven (num * Nat.pow 2 (-e).toNat) (den * Nat.pow 2 e.toNat) :=
    ⟨_, rfl⟩
  have N : Nearest (num / den) m e := hm ▸ nearest_roundHalfEven hnum hden he
  refine ⟨m, e, N, ?_⟩
  have hunfold : ofRatio? negative num den =
      (fun r : ℕ × ℤ => if greatestExponent < r.2 then none else some ⟨negative, r.1, r.2⟩)
        (if m = 2 * leastNormal then (leastNormal, e + 1) else (m, e)) := by
    unfold ofRatio?
    rw [if_neg hnum.ne']
    simp only [← he, ← hm]
  rw [hunfold]
  by_cases hcarry : m = 2 * leastNormal
  · have hvalue : (m : ℚ) * 2 ^ e = leastNormal * 2 ^ (e + 1) := by
      rw [hcarry, two_zpow_succ]
      push_cast
      ring
    rw [if_pos hcarry, hvalue]
    simp only
    split
    next hover => exact .inl ⟨rfl, le_of_greatestExponent_lt (by decide) hover⟩
    next hfits =>
      exact .inr ⟨_, rfl, ⟨show leastNormal < 2 ^ 53 by decide,
        N.least.trans (Int.le_add_one le_rfl), not_lt.mp hfits⟩, rfl⟩
  · rw [if_neg hcarry]
    simp only
    split
    next hover =>
      have hbinade := N.binade.resolve_left (by
        have hleast : leastExponent < greatestExponent := by decide
        omega)
      exact .inl ⟨rfl, le_of_greatestExponent_lt (N.le_significand hbinade) hover⟩
    next hfits =>
      refine .inr ⟨_, rfl, ⟨?_, N.least, not_lt.mp hfits⟩, rfl⟩
      exact lt_of_le_of_ne N.significand_le hcarry

theorem inRange_of_ofRatio? (hden : 0 < den) (h : ofRatio? negative num den = some x) :
    x.InRange := by
  by_cases hnum : num = 0
  · unfold ofRatio? at h
    rw [if_pos hnum] at h
    cases h
    exact inRange_zero negative
  · obtain ⟨m, e, -, ⟨hnone, -⟩ | ⟨y, hy, hrange, -⟩⟩ :=
      ofRatio?_cases (Nat.pos_of_ne_zero hnum) hden negative
    · rw [hnone] at h
      cases h
    · rw [hy] at h
      cases h
      exact hrange

/-- **A quotient does not overflow where a larger one does not**, and is not rounded to more. -/
theorem ofRatio?_mono (hden : 0 < den) (hden' : 0 < den') (hle : (num : ℚ) / den ≤ num' / den')
    (h : ofRatio? negative' num' den' = some x') (negative : Bool) :
    ∃ x, ofRatio? negative num den = some x ∧ x.magnitude ≤ x'.magnitude := by
  by_cases hnum : num = 0
  · refine ⟨zero negative, ?_, ?_⟩
    · unfold ofRatio?
      rw [if_pos hnum]
    · rw [magnitude_zero]
      exact magnitude_nonneg x'
  have hpos : (0 : ℚ) < num / den :=
    div_pos (by exact_mod_cast Nat.pos_of_ne_zero hnum) (by exact_mod_cast hden)
  have hnum' : num' ≠ 0 := by
    rintro rfl
    rw [Nat.cast_zero, zero_div] at hle
    exact absurd hpos (not_lt.mpr hle)
  obtain ⟨m', e', N', ⟨hnone, -⟩ | ⟨y', hy', hrange', hvalue'⟩⟩ :=
    ofRatio?_cases (Nat.pos_of_ne_zero hnum') hden' negative'
  · rw [hnone] at h
    cases h
  rw [hy'] at h
  cases h
  obtain ⟨m, e, N, ⟨-, hover⟩ | ⟨x, hx, -, hvalue⟩⟩ :=
    ofRatio?_cases (Nat.pos_of_ne_zero hnum) hden negative
  · have hlt := (N.mono N' hle).trans_lt (hvalue' ▸ hrange'.magnitude_lt)
    exact absurd hover (not_le.mpr hlt)
  · exact ⟨x, hx, by rw [hvalue, hvalue']; exact N.mono N' hle⟩

/-! ### Operations -/

theorem ofScaledRatio?_mono {twos twos' : ℤ} (hden : 0 < den) (hden' : 0 < den')
    (hle : (num : ℚ) / den * 2 ^ twos ≤ num' / den' * 2 ^ twos')
    (h : ofScaledRatio? negative' num' den' twos' = some x') (negative : Bool) :
    ∃ x, ofScaledRatio? negative num den twos = some x ∧ x.magnitude ≤ x'.magnitude := by
  have hpow : ∀ k, 0 < Nat.pow 2 k := fun k => Nat.pow_pos (by decide)
  refine ofRatio?_mono (Nat.mul_pos hden (hpow _)) (Nat.mul_pos hden' (hpow _)) ?_ h negative
  have hratio := ratio_scaled num den twos
  have hratio' := ratio_scaled num' den' twos'
  simp only [Nat.pow_eq]
  rwa [hratio, hratio']

theorem inRange_of_ofScaledRatio? {twos : ℤ} (hden : 0 < den)
    (h : ofScaledRatio? negative num den twos = some x) : x.InRange :=
  inRange_of_ofRatio? (Nat.mul_pos hden (Nat.pow_pos (by decide))) h

theorem inRange_of_mul? {z : Binary64} (h : x.mul? y = some z) : z.InRange :=
  inRange_of_ofScaledRatio? (by decide) h

theorem inRange_of_div? {z : Binary64} (h : x.div? y = some z) : z.InRange := by
  unfold div? at h
  split at h
  · cases h
  next hy => exact inRange_of_ofScaledRatio? (Nat.pos_of_ne_zero hy) h

/-- Smaller factors do not overflow. -/
theorem mul?_mono (hx : x.magnitude ≤ x'.magnitude) (hy : y.magnitude ≤ y'.magnitude)
    {z' : Binary64} (h : x'.mul? y' = some z') :
    ∃ z, x.mul? y = some z ∧ z.magnitude ≤ z'.magnitude := by
  refine ofScaledRatio?_mono (by decide) (by decide) ?_ h _
  have hproduct : ∀ a b : Binary64,
      ((a.significand * b.significand : ℕ) : ℚ) / (1 : ℕ) * 2 ^ (a.exponent + b.exponent) =
        a.magnitude * b.magnitude := by
    intro a b
    unfold magnitude
    rw [zpow_add₀ (by norm_num)]
    push_cast
    ring
  rw [hproduct, hproduct]
  exact mul_le_mul hx hy (magnitude_nonneg y) (magnitude_nonneg x')

/-- A smaller dividend and a larger divisor do not overflow. -/
theorem div?_mono (hx : x.magnitude ≤ x'.magnitude) (hy : y'.magnitude ≤ y.magnitude)
    {z' : Binary64} (h : x'.div? y' = some z') :
    ∃ z, x.div? y = some z ∧ z.magnitude ≤ z'.magnitude := by
  unfold div? at h
  split at h
  · cases h
  next hne' =>
    have hpos' : 0 < y'.magnitude :=
      mul_pos (by exact_mod_cast Nat.pos_of_ne_zero hne') (two_zpow_pos _)
    have hne : y.significand ≠ 0 := by
      intro hzero
      have hy0 : y.magnitude = 0 := by
        unfold magnitude
        rw [hzero]
        simp
      rw [hy0] at hy
      exact absurd hpos' (not_lt.mpr hy)
    unfold div?
    rw [if_neg hne]
    refine ofScaledRatio?_mono (Nat.pos_of_ne_zero hne) (Nat.pos_of_ne_zero hne') ?_ h _
    have hquotient : ∀ a b : Binary64,
        (a.significand : ℚ) / b.significand * 2 ^ (a.exponent - b.exponent) =
          a.magnitude / b.magnitude := by
      intro a b
      unfold magnitude
      rw [zpow_sub₀ (by norm_num), mul_div_mul_comm]
    rw [hquotient, hquotient]
    exact div_le_div₀ (magnitude_nonneg x') hx hpos' hy

end Upkeep.Binary64
