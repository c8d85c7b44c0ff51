/-
Finite binary64 numbers.

A value is a sign and a magnitude `significand * 2 ^ exponent`.  Everything is done on
naturals: an operation computes its exact quotient of naturals and `ofRatio?` rounds it
once, to nearest with ties to even, so no machine arithmetic is involved and each
result can be reasoned about as an integer inequality.  There is no infinity; what
overflows has no value.
-/

namespace Upkeep

/-- A finite double: the magnitude is `significand * 2 ^ exponent`. -/
structure Binary64 where
  negative : Bool
  significand : Nat
  exponent : Int
  deriving DecidableEq, Repr, Inhabited

namespace Binary64

/-- Exponent of the smallest positive double. -/
def leastExponent : Int := -1074

/-- Exponent of the largest doubles. -/
def greatestExponent : Int := 971

/-- The least significand of a double that is not below the normal range. -/
def leastNormal : Nat := 4503599627370496

/-- Zero, which keeps a sign. -/
def zero (negative : Bool) : Binary64 := ⟨negative, 0, leastExponent⟩

/-- The quotient rounded to the nearest natural, a half to the even one. -/
def roundHalfEven (num den : Nat) : Nat :=
  let q := num / den
  let r := num % den
  if 2 * r < den then q
  else if den < 2 * r then q + 1
  else if q % 2 = 0 then q else q + 1

/-- The power of two below or at `num / den`, for positive `num` and `den`. -/
def floorLog2 (num den : Nat) : Int :=
  let k : Int := (num.log2 : Int) - (den.log2 : Int)
  if den * Nat.pow 2 k.toNat ≤ num * Nat.pow 2 (-k).toNat then k else k - 1

/-- The double nearest to `num / den`, ties to even, or nothing when that is too large. -/
def ofRatio? (negative : Bool) (num den : Nat) : Option Binary64 :=
  if num = 0 then some (zero negative)
  else
    let e := max leastExponent (floorLog2 num den - 52)
    let m := roundHalfEven (num * Nat.pow 2 (-e).toNat) (den * Nat.pow 2 e.toNat)
    let (m, e) := if m = 2 * leastNormal then (leastNormal, e + 1) else (m, e)
    if greatestExponent < e then none else some ⟨negative, m, e⟩

/-- The double nearest to `num / den * 2 ^ twos`. -/
def ofScaledRatio? (negative : Bool) (num den : Nat) (twos : Int) : Option Binary64 :=
  ofRatio? negative (num * Nat.pow 2 twos.toNat) (den * Nat.pow 2 (-twos).toNat)

/-- The nearest double to an integer. -/
def ofInt? (i : Int) : Option Binary64 := ofRatio? (i < 0) i.natAbs 1

/-- The nearest double to a power of ten. -/
def tenTo? (n : Nat) : Option Binary64 := ofRatio? false (Nat.pow 10 n) 1

/-- The rounded product. -/
def mul? (x y : Binary64) : Option Binary64 :=
  ofScaledRatio? (x.negative != y.negative) (x.significand * y.significand) 1
    (x.exponent + y.exponent)

/-- The rounded quotient; there is none by zero. -/
def div? (x y : Binary64) : Option Binary64 :=
  if y.significand = 0 then none
  else
    ofScaledRatio? (x.negative != y.negative) x.significand y.significand
      (x.exponent - y.exponent)

/-- The other sign. -/
def neg (x : Binary64) : Binary64 := { x with negative := !x.negative }

/-- The value in units of the smallest positive double. -/
def units (x : Binary64) : Int :=
  let magnitude : Nat := x.significand * Nat.pow 2 (x.exponent - leastExponent).toNat
  if x.negative then -(magnitude : Int) else magnitude

/-- The first number is the smaller one; the two zeros are equal. -/
def lt (x y : Binary64) : Bool := x.units < y.units

example : (ofRatio? false 1 10).map (·.significand) = some 0x1999999999999a := by decide +kernel
example : ofRatio? false (Nat.pow 2 1024) 1 = none := by decide +kernel
example : (ofInt? 9007199254740993).map units = (ofInt? 9007199254740992).map units := by
  decide +kernel

end Binary64

end Upkeep
