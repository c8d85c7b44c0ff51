/-
Literals that have a value.

A literal is valued by one product or quotient of doubles, which overflows for some literals
whose number is no larger than a double can be.  A literal without a positive exponent never
does, as its digits are gathered only while they fit a word; and where the number is at most
`ceiling` no product overflows either.  The second is seen power by power, at the largest word
that the ceiling leaves room for: rounding does not turn the order round.
-/
import Upkeep.Json.Literal
import Upkeep.Proofs.Binary64.ShortestDecimal
import Upkeep.Proofs.Json.Loose

namespace Upkeep

namespace Binary64

variable {x y : Binary64} {n n' k k' : ℕ}

/-! ### Words and powers of ten -/

theorem ofInt?_eq (n : ℕ) : ofInt? n = ofRatio? false n 1 := by
  unfold ofInt?
  rw [Int.natAbs_natCast, decide_eq_false (by omega)]

theorem ofInt?_mono (h : n ≤ n') {x' : Binary64} (h' : ofInt? n' = some x') :
    ∃ x, ofInt? n = some x ∧ x.magnitude ≤ x'.magnitude := by
  rw [ofInt?_eq] at h' ⊢
  refine ofRatio?_mono (by decide) (by decide) ?_ h' false
  rw [Nat.cast_one, div_one, div_one]
  exact_mod_cast h

/-- The first double that is too large for a word. -/
def word : Binary64 := ⟨false, leastNormal, 12⟩

/-- The double of one. -/
def one : Binary64 := ⟨false, leastNormal, -52⟩

theorem ofInt?_word : ofInt? (2 ^ 64 : ℕ) = some word := by decide +kernel

theorem natPow_le (h : k ≤ k') : Nat.pow 10 k ≤ Nat.pow 10 k' :=
  Nat.pow_le_pow_right (by decide) h

theorem tenTo?_mono (h : k ≤ k') {y' : Binary64} (h' : tenTo? k' = some y') :
    ∃ y, tenTo? k = some y ∧ y.magnitude ≤ y'.magnitude := by
  refine ofRatio?_mono (by decide) (by decide) ?_ h' false
  rw [Nat.cast_one, div_one, div_one]
  exact Nat.cast_le.mpr (natPow_le h)

theorem exists_tenTo? (h : k ≤ 308) : ∃ y, tenTo? k = some y ∧ one.magnitude ≤ y.magnitude := by
  have hgreatest : (tenTo? 308).isSome = true := by decide +kernel
  obtain ⟨z, hz⟩ := Option.isSome_iff_exists.mp hgreatest
  obtain ⟨y, hy, -⟩ := tenTo?_mono h hz
  have hone : tenTo? 0 = some one := by decide +kernel
  obtain ⟨w, hw, hwy⟩ := tenTo?_mono k.zero_le hy
  rw [hone] at hw
  cases hw
  exact ⟨y, hy, hwy⟩

/-- What is no larger than a word stays so when it is divided by a power of ten. -/
theorem exists_div?_tenTo? (hx : x.magnitude ≤ word.magnitude) (hk : k ≤ 308) :
    ∃ y z, tenTo? k = some y ∧ x.div? y = some z ∧ z.magnitude ≤ word.magnitude := by
  obtain ⟨y, hy, hone⟩ := exists_tenTo? hk
  have hword : word.div? one = some word := by decide +kernel
  obtain ⟨z, hz, hle⟩ := div?_mono hx hone hword
  exact ⟨y, z, hy, hz, hle⟩

theorem cast_natPow (b k : ℕ) : ((Nat.pow b k : ℕ) : ℚ) = (b : ℚ) ^ (k : ℤ) := by
  rw [zpow_natCast]
  exact Nat.cast_pow b k

theorem ceiling_eq_cast :
    ceiling = (((2 ^ 54 - 3) * Nat.pow 2 ceilingExponent : ℕ) : ℚ) := by
  rw [Nat.cast_mul, cast_natPow]
  unfold ceiling
  norm_num

theorem two_pow_le_ceiling : (2 : ℚ) ^ 64 ≤ ceiling := by
  have hpower : (2 : ℚ) ^ (11 : ℤ) ≤ 2 ^ (ceilingExponent : ℤ) := two_zpow_le (by decide)
  calc (2 : ℚ) ^ 64 ≤ (2 ^ 54 - 3) * 2 ^ (11 : ℤ) := by norm_num
    _ ≤ ceiling := mul_le_mul_of_nonneg_left hpower (by norm_num)

/-- The largest word that is at most the ceiling when it is taken times a power of ten. -/
def greatestWord (k : ℕ) : ℕ :=
  min (2 ^ 64 - 1) ((2 ^ 54 - 3) * Nat.pow 2 ceilingExponent / Nat.pow 10 k)

theorem le_greatestWord (hn : n < 2 ^ 64) (h : (n : ℚ) * 10 ^ (k : ℤ) ≤ ceiling) :
    n ≤ greatestWord k := by
  refine le_min (by omega) ((Nat.le_div_iff_mul_le (Nat.pow_pos (by decide))).mpr ?_)
  show n * Nat.pow 10 k ≤ _
  rw [← Nat.cast_le (α := ℚ), ← ceiling_eq_cast, Nat.cast_mul, cast_natPow]
  exact h

/-- No power of ten beyond the 308th is at most the ceiling. -/
theorem le_of_le_ceiling (hn : 0 < n) (h : (n : ℚ) * 10 ^ (k : ℤ) ≤ ceiling) : k ≤ 308 := by
  by_contra hk
  obtain ⟨j, hj, hlt⟩ : ∃ j, j = 309 ∧ (2 ^ 54 - 3) * Nat.pow 2 ceilingExponent < Nat.pow 10 j :=
    ⟨309, rfl, by decide +kernel⟩
  have hpower : Nat.pow 10 j ≤ Nat.pow 10 k := natPow_le (by omega)
  have hcast := cast_natPow 10 k
  rw [Nat.cast_ofNat] at hcast
  rw [ceiling_eq_cast, ← hcast, ← Nat.cast_mul, Nat.cast_le] at h
  exact absurd (Nat.le_mul_of_pos_left _ hn) (not_le.mpr (h.trans_lt (hlt.trans_le hpower)))

/-- The largest products below the ceiling, for the powers with which not every word is. -/
theorem exists_mul?_greatestWord : ∀ k ∈ List.range' 289 20,
    ((ofInt? (greatestWord k)).bind fun x => (tenTo? k).bind x.mul?).isSome = true := by
  decide +kernel

/-- Every word can be taken times the powers before those. -/
theorem exists_mul?_word : ((tenTo? 288).bind word.mul?).isSome = true := by decide +kernel

theorem exists_mul?_tenTo? (hn : n < 2 ^ 64) (h : (n : ℚ) * 10 ^ (k : ℤ) ≤ ceiling)
    (hk : k ≤ 308) (hx : ofInt? n = some x) : ∃ y z, tenTo? k = some y ∧ x.mul? y = some z := by
  by_cases hsmall : k ≤ 288
  · obtain ⟨z', hz'⟩ := Option.isSome_iff_exists.mp exists_mul?_word
    obtain ⟨y', hy', hmul⟩ := Option.bind_eq_some_iff.mp hz'
    obtain ⟨y, hy, hle⟩ := tenTo?_mono hsmall hy'
    obtain ⟨w, hw, hword⟩ := ofInt?_mono hn.le ofInt?_word
    rw [hx] at hw
    cases hw
    obtain ⟨z, hz, -⟩ := mul?_mono hword hle hmul
    exact ⟨y, z, hy, hz⟩
  · obtain ⟨z', hz'⟩ := Option.isSome_iff_exists.mp
      (exists_mul?_greatestWord k (List.mem_range'_1.mpr (by omega)))
    obtain ⟨x', hx', hbind⟩ := Option.bind_eq_some_iff.mp hz'
    obtain ⟨y, hy, hmul⟩ := Option.bind_eq_some_iff.mp hbind
    obtain ⟨w, hw, hle⟩ := ofInt?_mono (le_greatestWord hn h) hx'
    rw [hx] at hw
    cases hw
    obtain ⟨z, hz, -⟩ := mul?_mono hle (le_refl y.magnitude) hmul
    exact ⟨y, z, hy, hz⟩

end Binary64

namespace Json.Literal

open Binary64

variable {n m : ℕ} {power : ℤ} {x : Binary64}

/-! ### Numbers times powers of ten -/

/-- **A word times a power of ten has a value**, where the power is not positive or the
product at most the ceiling. -/
theorem exists_scale? (hn : n < 2 ^ 64) (h : power ≤ 0 ∨ (n : ℚ) * 10 ^ power ≤ ceiling) :
    ∃ x, scale? n power = some x := by
  obtain ⟨x, hx, hword⟩ := ofInt?_mono hn.le ofInt?_word
  unfold scale?
  rw [hx]
  simp only [Option.bind_eq_bind, Option.bind_some]
  by_cases hzero : n = 0
  · exact ⟨x, if_pos hzero⟩
  rw [if_neg hzero]
  by_cases hpositive : 0 ≤ power
  · obtain ⟨k, rfl⟩ := Int.eq_ofNat_of_zero_le hpositive
    have hceiling : (n : ℚ) * 10 ^ (k : ℤ) ≤ ceiling := by
      rcases h with hnone | hceiling
      · obtain rfl : k = 0 := by omega
        rw [Nat.cast_zero, zpow_zero, mul_one]
        exact le_trans (by exact_mod_cast hn.le) two_pow_le_ceiling
      · exact hceiling
    have hk : k ≤ 308 := le_of_le_ceiling (Nat.pos_of_ne_zero hzero) hceiling
    obtain ⟨y, z, hy, hz⟩ := exists_mul?_tenTo? hn hceiling hk hx
    rw [if_pos hpositive, if_pos (by omega), Int.toNat_natCast, hy]
    exact ⟨z, hz⟩
  rw [if_neg hpositive]
  by_cases hsmall : -308 ≤ power
  · obtain ⟨y, z, hy, hz, -⟩ := exists_div?_tenTo? hword (show (-power).toNat ≤ 308 by omega)
    rw [if_pos hsmall, hy]
    exact ⟨z, hz⟩
  rw [if_neg hsmall]
  by_cases htiny : -616 ≤ power
  · obtain ⟨y, z, hy, hz, hle⟩ := exists_div?_tenTo? hword (le_refl 308)
    obtain ⟨y', z', hy', hz', -⟩ :=
      exists_div?_tenTo? hle (show (-power - 308).toNat ≤ 308 by omega)
    rw [if_pos htiny, hy, Option.bind_some, hz, Option.bind_some, hy']
    exact ⟨z', hz'⟩
  · rw [if_neg htiny]
    exact ⟨_, rfl⟩

/-- What a word is scaled to is a double. -/
theorem inRange_of_scale? (h : scale? n power = some x) : x.InRange := by
  unfold scale? at h
  obtain ⟨y, hy, h⟩ := Option.bind_eq_some_iff.mp h
  split at h
  · cases h
    exact inRange_of_ofRatio? (by decide) hy
  split at h
  · split at h
    · obtain ⟨ten, -, hmul⟩ := Option.bind_eq_some_iff.mp h
      exact inRange_of_mul? hmul
    · cases h
  split at h
  · obtain ⟨ten, -, hdiv⟩ := Option.bind_eq_some_iff.mp h
    exact inRange_of_div? hdiv
  split at h
  · obtain ⟨ten, -, h⟩ := Option.bind_eq_some_iff.mp h
    obtain ⟨z, -, h⟩ := Option.bind_eq_some_iff.mp h
    obtain ⟨ten', -, hdiv⟩ := Option.bind_eq_some_iff.mp h
    exact inRange_of_div? hdiv
  · cases h
    exact inRange_zero false

/-! ### Gathering digits -/

variable {cs ds es : List Char}

theorem gather_lt (hn : n < 2 ^ 64) (cs : List Char) : (gather n cs).1 < 2 ^ 64 := by
  induction cs generalizing n with
  | nil => exact hn
  | cons c cs ih =>
      unfold gather
      simp only
      split
      next hfits => exact ih hfits
      next => exact hn

theorem length_gather_le (n : ℕ) (cs : List Char) : (gather n cs).2.length ≤ cs.length := by
  induction cs generalizing n with
  | nil => exact le_rfl
  | cons c cs ih =>
      unfold gather
      simp only
      split
      · exact (ih _).trans (Nat.le_succ _)
      · exact le_rfl

/-- A digit more is one digit of the number behind. -/
theorem gather_step (n : ℕ) (c : Char) (cs : List Char) :
    (10 * n + Text.digitValue c) * 10 ^ cs.length + Text.valueOfDigits cs =
      n * 10 ^ (c :: cs).length + Text.valueOfDigits (c :: cs) := by
  rw [Text.valueOfDigits_cons, List.length_cons, pow_succ]
  ring

/-- Digits that are left out only make the number smaller. -/
theorem gather_le (n : ℕ) (cs : List Char) :
    (gather n cs).1 * 10 ^ (gather n cs).2.length ≤
      n * 10 ^ cs.length + Text.valueOfDigits cs := by
  induction cs generalizing n with
  | nil => exact Nat.le_add_right _ _
  | cons c cs ih =>
      rw [← gather_step]
      unfold gather
      simp only
      split
      · exact ih _
      · rw [gather_step]
        exact Nat.le_add_right _ _

/-- Digits of a number that fits are gathered, all of them. -/
theorem gather_of_lt (h : n * 10 ^ cs.length + Text.valueOfDigits cs < 2 ^ 64) :
    gather n cs = (n * 10 ^ cs.length + Text.valueOfDigits cs, []) := by
  induction cs generalizing n with
  | nil => simp [gather, Text.valueOfDigits]
  | cons c cs ih =>
      rw [← gather_step] at h ⊢
      have hfits : 10 * n + Text.digitValue c < UInt64.size :=
        ((Nat.le_mul_of_pos_right _ (by positivity)).trans (Nat.le_add_right _ _)).trans_lt h
      unfold gather
      simp only
      rw [if_pos hfits, ih h]

theorem overflowAt?_of_lt (taken : ℕ)
    (h : n * 10 ^ cs.length + Text.valueOfDigits cs < 2147483648) :
    overflowAt? n taken cs = none := by
  induction cs generalizing n taken with
  | nil => rfl
  | cons c cs ih =>
      rw [← gather_step] at h
      have hfits : ¬2147483648 ≤ 10 * n + Text.digitValue c :=
        not_le.mpr (((Nat.le_mul_of_pos_right _ (by positivity)).trans
          (Nat.le_add_right _ _)).trans_lt h)
      unfold overflowAt?
      simp only
      rw [if_neg hfits]
      exact ih _ h

/-! ### Literals that have a value -/

variable {l : Literal}

/-- The digits of a literal without its point. -/
def significant (l : Literal) : List Char := l.whole ++ l.fraction.getD []

/-- The whole part fits a word, and an exponent that is not negative leaves the number at most
the ceiling. -/
structure Moderate (l : Literal) : Prop where
  whole : Text.valueOfDigits l.whole < 2 ^ 64
  exponent : ∀ ds, l.exponent = some (false, ds) → Text.valueOfDigits ds < 2147483648 ∧
    (Text.valueOfDigits l.significant : ℚ) *
      10 ^ ((Text.valueOfDigits ds : ℤ) - (l.fraction.getD []).length) ≤ ceiling

/-- What was gathered of a number is below the ceiling where the number is. -/
theorem gathered_le_ceiling {m v dropped places exponent : ℕ} (hvalue : m * 10 ^ dropped ≤ v)
    (hceiling : (v : ℚ) * 10 ^ ((exponent : ℤ) - places) ≤ ceiling) :
    (m : ℚ) * 10 ^ (-((places : ℤ) - dropped) + exponent) ≤ ceiling := by
  have hcast : (m : ℚ) * 10 ^ (dropped : ℤ) ≤ v := by
    rw [zpow_natCast]
    exact_mod_cast hvalue
  calc (m : ℚ) * 10 ^ (-((places : ℤ) - dropped) + exponent)
      = m * 10 ^ (dropped : ℤ) * 10 ^ ((exponent : ℤ) - places) := by
        rw [mul_assoc, ← zpow_add₀ (by norm_num)]
        congr 2
        ring
    _ ≤ v * 10 ^ ((exponent : ℤ) - places) :=
        mul_le_mul_of_nonneg_right hcast (ten_zpow_pos _).le
    _ ≤ ceiling := hceiling

/-- **A moderate literal has a value.** -/
theorem Moderate.exists_float? (M : l.Moderate) : ∃ x, l.float? = some x := by
  obtain ⟨digits, hdigits⟩ : ∃ digits, digits = l.fraction.getD [] := ⟨_, rfl⟩
  have hwhole : gather 0 l.whole = (Text.valueOfDigits l.whole, []) := by
    rw [gather_of_lt (by simpa using M.whole)]
    simp
  obtain ⟨m, dropped, hgather⟩ : ∃ m dropped,
      gather (Text.valueOfDigits l.whole) digits = (m, dropped) := ⟨_, _, rfl⟩
  have hm : m < 2 ^ 64 := by
    have hlt := gather_lt M.whole digits
    rwa [hgather] at hlt
  have hlength : dropped.length ≤ digits.length := by
    have hle := length_gather_le (Text.valueOfDigits l.whole) digits
    rwa [hgather] at hle
  have hvalue : m * 10 ^ dropped.length ≤ Text.valueOfDigits l.significant := by
    have hle := gather_le (Text.valueOfDigits l.whole) digits
    unfold significant
    rw [← hdigits, Text.valueOfDigits_append]
    rwa [hgather] at hle
  have hscale : ∀ power : ℤ, power ≤ 0 ∨ (m : ℚ) * 10 ^ power ≤ ceiling →
      ∃ x, scale? m power = some x := fun _ => exists_scale? hm
  have hstart : -((digits.length : ℤ) - dropped.length) ≤ 0 := by omega
  unfold float?
  simp only [hwhole, ← hdigits, hgather, List.length_nil, Int.natCast_zero, zero_sub]
  cases hexponent : l.exponent with
  | none =>
      obtain ⟨x, hx⟩ := hscale _ (.inl hstart)
      exact ⟨_, by rw [hx]; rfl⟩
  | some exponent =>
      obtain ⟨negative, ds⟩ := exponent
      cases negative with
      | true =>
          by_cases hover : (overflowAt? 0 0 ds).isSome = true
          · simp only [hover, if_true, reduceCtorEq, and_false, if_false]
            exact ⟨_, rfl⟩
          · have hpower : -((digits.length : ℤ) - dropped.length) - Text.valueOfDigits ds ≤ 0 := by
              omega
            obtain ⟨x, hx⟩ := hscale _ (.inl hpower)
            simp only [hover, if_true, Bool.false_eq_true, if_false]
            exact ⟨_, by rw [hx]; rfl⟩
      | false =>
          obtain ⟨hfits, hceiling⟩ := M.exponent ds hexponent
          rw [← hdigits] at hceiling
          have hnone : overflowAt? 0 0 ds = none := overflowAt?_of_lt 0 (by simpa using hfits)
          obtain ⟨x, hx⟩ := hscale _ (.inr (gathered_le_ceiling hvalue hceiling))
          simp only [hnone, Option.isSome_none, Bool.false_eq_true, if_false]
          exact ⟨_, by rw [hx]; rfl⟩

theorem inRange_of_float? (h : l.float? = some x) : x.InRange := by
  unfold float? at h
  obtain ⟨y, hy, rfl⟩ := Option.map_eq_some_iff.mp h
  have hrange : y.InRange := by
    split at hy
    · exact inRange_of_scale? hy
    · split at hy
      · split at hy
        · cases hy
        · cases hy
          exact inRange_zero false
      · exact inRange_of_scale? hy
  split
  · exact hrange.neg
  · exact hrange

end Json.Literal

end Upkeep
