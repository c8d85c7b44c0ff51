/-
Every printed number has a value.

A double that is read back need not be the one that was printed, but it is a double: a
positional text has no exponent, and the number of a scientific one is that of the shortest
decimal, which is clear of what overflows.  The greatest double has its decimal above the
ceiling, and is looked at by itself.
-/
import Upkeep.Proofs.Json.Overflow

namespace Upkeep.Json

namespace Literal

open Binary64

variable {negative : Bool} {x : Binary64} {l : Literal} {n : Number}

/-! ### Literals of printed doubles -/

theorem moderate_of_positional (hnone : l.exponent = none) (R : Run l.whole)
    (hlength : l.whole.length ≤ 16) : l.Moderate := by
  refine ⟨?_, fun ds hds => by rw [hnone] at hds; cases hds⟩
  calc Text.valueOfDigits l.whole < 10 ^ l.whole.length := Text.valueOfDigits_lt R.isDigit
    _ ≤ 10 ^ 16 := Nat.pow_le_pow_right (by decide) hlength
    _ < 2 ^ 64 := by decide

/-- The exponent of the first digit of a decimal. -/
def leading (d : Decimal) : ℤ := d.scale + (Text.digits d.coefficient).length - 1

/-- The first digit alone is no more than the decimal. -/
theorem ten_pow_leading_le {d : Decimal} (hd : d.coefficient ≠ 0) :
    (10 : ℚ) ^ leading d ≤ d.value := by
  have hlength : 0 < (Text.digits d.coefficient).length :=
    List.length_pos_of_ne_nil (Text.digits_ne_nil _)
  have hfirst : (10 : ℚ) ^ (((Text.digits d.coefficient).length - 1 : ℕ) : ℤ) ≤ d.coefficient := by
    rw [zpow_natCast]
    exact_mod_cast Text.pow_length_digits_le hd
  unfold leading Decimal.value
  calc (10 : ℚ) ^ (d.scale + (Text.digits d.coefficient).length - 1)
      = 10 ^ (((Text.digits d.coefficient).length - 1 : ℕ) : ℤ) * 10 ^ d.scale := by
        rw [← zpow_add₀ (by norm_num)]
        congr 1
        omega
    _ ≤ d.coefficient * 10 ^ d.scale :=
        mul_le_mul_of_nonneg_right hfirst (ten_zpow_pos _).le

theorem leading_le {d : Decimal} (hd : d.coefficient ≠ 0) (h : d.value ≤ ceiling) :
    leading d ≤ 308 := by
  by_contra hlarge
  obtain ⟨k, hk⟩ := Int.eq_ofNat_of_zero_le (show 0 ≤ leading d by omega)
  have hle := (ten_pow_leading_le hd).trans h
  rw [hk] at hle
  have hbound := le_of_le_ceiling (n := 1) (k := k) (by decide) (by simpa using hle)
  omega

/-- The literal of a scientific text. -/
def scientific (negative : Bool) (d : Decimal) : Literal :=
  let ds := Text.digits d.coefficient
  ⟨negative, ds.take 1, if ds.length = 1 then none else some (ds.drop 1),
    some (leading d < 0, Text.digits (leading d).natAbs)⟩

theorem fraction_scientific (negative : Bool) (d : Decimal) :
    (scientific negative d).fraction.getD [] = (Text.digits d.coefficient).drop 1 := by
  unfold scientific
  simp only
  split
  next hone =>
    rw [Option.getD_none, eq_comm]
    exact List.drop_eq_nil_iff.mpr hone.le
  next => rfl

/-- The number of a scientific text is that of its decimal. -/
theorem moderate_scientific {d : Decimal} (hd : d.coefficient ≠ 0) (h : d.value ≤ ceiling)
    (negative : Bool) : (scientific negative d).Moderate := by
  have hfraction := fraction_scientific negative d
  have hdigits : (scientific negative d).significant = Text.digits d.coefficient := by
    unfold significant
    rw [hfraction]
    exact List.take_append_drop 1 _
  have hlength : 0 < (Text.digits d.coefficient).length :=
    List.length_pos_of_ne_nil (Text.digits_ne_nil _)
  refine ⟨?_, fun ds hds => ?_⟩
  · have hrun : ∀ c ∈ (scientific negative d).whole, c.isDigit = true := fun c hc =>
      Text.isDigit_of_mem_digits (List.mem_of_mem_take hc)
    calc Text.valueOfDigits (scientific negative d).whole
        < 10 ^ (scientific negative d).whole.length := Text.valueOfDigits_lt hrun
      _ ≤ 10 ^ 1 := Nat.pow_le_pow_right (by decide) (List.length_take_le _ _)
      _ < 2 ^ 64 := by decide
  · obtain ⟨hsign, rfl⟩ := Prod.mk.inj (Option.some.inj hds)
    have hnonneg : 0 ≤ leading d := by simpa using hsign
    have hbound := leading_le hd h
    rw [Text.valueOfDigits_digits, hdigits, Text.valueOfDigits_digits, hfraction,
      List.length_drop]
    refine ⟨by omega, ?_⟩
    have hscale : ((leading d).natAbs : ℤ) - ((Text.digits d.coefficient).length - 1 : ℕ) =
        d.scale := by
      unfold leading at hnonneg ⊢
      omega
    rw [hscale]
    exact h

/-- What is printed for the magnitude of a double is a moderate literal, unless it is the
greatest one. -/
theorem moderate_magnitude (hrange : x.InRange) (hgreatest : ¬x.IsGreatest) (negative : Bool) :
    ∃ l, Scanned negative (if x.significand = 0 then
      positionalText Layout.document.markWhole ['0'] 0 else Layout.document.magnitudeText x) l ∧
        l.Moderate := by
  split
  next =>
    obtain ⟨l, hl, hnone, R, hlength⟩ := scanned_positionalText Layout.document.markWhole
      (whole_digits 0) 0 fun _ => rfl
    exact ⟨l, hl, moderate_of_positional hnone R (hlength.trans (by decide))⟩
  next hx =>
    have hne := digits_shortest_ne .toEven hx
    show ∃ l, Scanned negative (if -5 ≤ leading (shortest .toEven x) ∧
      leading (shortest .toEven x) ≤ 15 then _ else _) l ∧ l.Moderate
    split
    next hleading =>
      obtain ⟨l, hl, hnone, R, hlength⟩ := scanned_positionalText Layout.document.markWhole
        (whole_digits _) (leading (shortest .toEven x)) fun h => absurd h hne
      exact ⟨l, hl, moderate_of_positional hnone R (by omega)⟩
    next =>
      exact ⟨scientific negative (shortest .toEven x),
        scanned_scientificText (whole_digits _) hne _,
        moderate_scientific (shortest_ne_zero _ hx)
          (value_shortest_le_ceiling .toEven hrange hgreatest) negative⟩

/-! ### The values of literals -/

/-- A literal is an integer of 64 bits or a double. -/
theorem number?_cases (l : Literal) :
    (∃ i fits, l.number? = some (.integer i fits)) ∨ l.number? = l.float?.map .float := by
  let n : Int := Text.valueOfDigits l.whole
  by_cases h : l.fraction = none ∧ l.exponent = none ∧ ¬(l.negative ∧ n = 0) ∧
    Fits (if l.negative then -n else n)
  · exact .inl ⟨_, h.2.2.2, dif_pos h⟩
  · exact .inr (dif_neg h)

theorem Moderate.exists_number? (M : l.Moderate) : ∃ n, l.number? = some n := by
  obtain ⟨i, fits, hinteger⟩ | hfloat := l.number?_cases
  · exact ⟨_, hinteger⟩
  · obtain ⟨x, hx⟩ := M.exists_float?
    exact ⟨.float x, by rw [hfloat, hx]; rfl⟩

end Literal

/-! ### Numbers that are read again -/

/-- The number is an integer or a double as they are stored. -/
def Number.InRange : Number → Prop
  | .integer _ _ => True
  | .float x => x.InRange

variable {n : Number} {l : Literal}

theorem Literal.inRange_of_number? (h : l.number? = some n) : n.InRange := by
  obtain ⟨i, fits, hinteger⟩ | hfloat := l.number?_cases
  · cases hinteger.symm.trans h
    trivial
  · obtain ⟨x, hx, rfl⟩ := Option.map_eq_some_iff.mp (hfloat.symm.trans h)
    exact Literal.inRange_of_float? hx

/-- The greatest double is read again, with either sign. -/
theorem Number.reread_greatest : ∀ negative : Bool,
    (Number.float ⟨negative, 2 ^ 53 - 1, Binary64.greatestExponent⟩).reread.isSome = true := by
  decide +kernel

/-- **A printed number has a value.** -/
theorem Number.InRange.reread_isSome (h : n.InRange) : n.reread.isSome = true := by
  cases n with
  | integer i fits =>
      obtain ⟨c, r, hcr⟩ := List.exists_cons_of_ne_nil (Text.digits_ne_nil i.natAbs)
      have hscanned : Literal.Scanned (decide (i < 0)) (Text.digits i.natAbs)
          ⟨decide (i < 0), Text.digits i.natAbs, none, none⟩ :=
        ⟨⟨c, r, hcr, Text.isDigit_of_mem_digits (hcr ▸ List.mem_cons_self)⟩,
          Literal.scan_digits _ _⟩
      have htext : (Number.integer i fits).text =
          if decide (i < 0) = true then '-' :: Text.digits i.natAbs else Text.digits i.natAbs := by
        show integerText i = _
        unfold integerText
        by_cases hi : i < 0 <;> simp [hi]
      rw [Number.reread_eq htext hscanned, Literal.number?_integer i fits]
      rfl
  | float x =>
      by_cases hgreatest : x.IsGreatest
      · obtain ⟨negative, significand, exponent⟩ := x
        obtain ⟨rfl, rfl⟩ : significand = 2 ^ 53 - 1 ∧ exponent = Binary64.greatestExponent :=
          hgreatest
        exact Number.reread_greatest negative
      · obtain ⟨l, hl, M⟩ := Literal.moderate_magnitude h hgreatest x.negative
        obtain ⟨n, hn⟩ := M.exists_number?
        have htext : (Number.float x).text = if x.negative = true then '-' :: _ else _ := rfl
        rw [Number.reread_eq htext hl, hn]
        rfl

end Upkeep.Json
