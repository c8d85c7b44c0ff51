/-
The shortest decimal of a double.

A decimal names a double when it lies in the interval of reals that round to it.  For
one digit, two digits and so on, `shortest` looks at the two points of that decimal
grid next to the value; the first grid with a point in the interval wins, and of two
such points the nearer.  Seventeen digits always suffice.
-/
import Upkeep.Binary64

namespace Upkeep.Binary64

/-- Which of two equally near decimals is taken. -/
inductive Tie
  | toEven
  | up
  deriving DecidableEq, Repr

/-- Positive decimal number `coefficient * 10 ^ scale`. -/
structure Decimal where
  coefficient : Nat
  scale : Int
  deriving DecidableEq, Repr

/-- The reals that round to a double, as numerators over one common denominator. -/
structure Interval where
  low : Nat
  value : Nat
  high : Nat
  denominator : Nat
  /-- The ends round to the double too. -/
  closed : Bool

/-- The interval of a positive double, in quarters of its last place. -/
def interval (x : Binary64) : Interval :=
  let unit := Nat.pow 2 (x.exponent - 2).toNat
  let den := Nat.pow 2 (2 - x.exponent).toNat
  let below := if x.significand = leastNormal ∧ leastExponent < x.exponent then 1 else 2
  { low := (4 * x.significand - below) * unit
    value := 4 * x.significand * unit
    high := (4 * x.significand + 2) * unit
    denominator := den
    closed := x.significand % 2 == 0 }

/-- The decimal lies in the interval. -/
def Interval.contains (i : Interval) (coefficient : Nat) (scale : Int) : Bool :=
  let point := coefficient * Nat.pow 10 scale.toNat * i.denominator
  let unit := Nat.pow 10 (-scale).toNat
  if i.closed then i.low * unit ≤ point && point ≤ i.high * unit
  else i.low * unit < point && point < i.high * unit

/-- The grid point named by a double among the two next to its value, if there is one. -/
def Interval.gridPoint? (i : Interval) (tie : Tie) (scale : Int) : Option Decimal :=
  let num := i.value * Nat.pow 10 (-scale).toNat
  let den := i.denominator * Nat.pow 10 scale.toNat
  let below := num / den
  let rest := num % den
  match i.contains below scale, i.contains (below + 1) scale with
  | false, false => none
  | true, false => some ⟨below, scale⟩
  | false, true => some ⟨below + 1, scale⟩
  | true, true =>
    if 2 * rest < den then some ⟨below, scale⟩
    else if den < 2 * rest then some ⟨below + 1, scale⟩
    else match tie with
      | .toEven => some ⟨if below % 2 = 0 then below else below + 1, scale⟩
      | .up => some ⟨below + 1, scale⟩

/-- The power of ten at or below `num / den`, found downwards from `10 ^ start`. -/
def floorLog10 (num den : Nat) : Nat → Int → Int
  | 0, start => start
  | fuel + 1, start =>
    if den * Nat.pow 10 start.toNat ≤ num * Nat.pow 10 (-start).toNat then start
    else floorLog10 num den fuel (start - 1)

/-- The power of ten at or below a positive double. -/
def Interval.magnitude (i : Interval) : Int :=
  floorLog10 i.value i.denominator 640 (i.value.log2 / 3 - i.denominator.log2 / 4 + 1)

/-- Drops the trailing zeros of a coefficient. -/
def Decimal.stripZeros : Nat → Decimal → Decimal
  | 0, d => d
  | fuel + 1, d =>
    if d.coefficient ≠ 0 ∧ d.coefficient % 10 = 0 then
      stripZeros fuel ⟨d.coefficient / 10, d.scale + 1⟩
    else d

/-- The decimal of fewest digits that rounds to a positive double, nearest to it. -/
def shortest (tie : Tie) (x : Binary64) : Decimal :=
  let i := x.interval
  let top := i.magnitude
  let found := (List.range 17).findSome? fun n : Nat => i.gridPoint? tie (top - (n : Int))
  (found.getD ⟨x.significand, 0⟩).stripZeros 20

example : (ofRatio? false 1 10).map (shortest .toEven) = some ⟨1, -1⟩ := by decide +kernel
example : shortest .toEven ⟨false, 1, leastExponent⟩ = ⟨5, -324⟩ := by decide +kernel

end Upkeep.Binary64
