/-
Reading a decimal text as a double.

The grammar is an optional sign, digits with an optional point (at least one digit on
one side of it), and an optional exponent.  The result is the nearest double; a text
whose value is too large has none.
-/
import Upkeep.Binary64
import Upkeep.Text.Digit

namespace Upkeep.Binary64

/-- A decimal text taken apart: the digits without the point, and the power of ten. -/
structure Spelled where
  negative : Bool
  coefficient : Nat
  scale : Int

/-- Exponents beyond this bound decide the value by themselves. -/
def exponentBound : Nat := 100000

/-- The digits of an exponent, its sign in front; large ones are held at the bound. -/
def exponent? (cs : List Char) : Option Int :=
  let (negative, ds) : Bool × List Char := match cs with
    | '-' :: r => (true, r)
    | '+' :: r => (false, r)
    | r => (false, r)
  (Text.natural? ds).map fun n =>
    let n := min n exponentBound
    if negative then -(n : Int) else n

/-- Takes a decimal text apart. -/
def spelled? (cs : List Char) : Option Spelled :=
  let (negative, body) : Bool × List Char := match cs with
    | '-' :: r => (true, r)
    | '+' :: r => (false, r)
    | r => (false, r)
  let whole := body.takeWhile Char.isDigit
  let afterWhole := body.dropWhile Char.isDigit
  let (fraction, rest) : List Char × List Char := match afterWhole with
    | '.' :: r => (r.takeWhile Char.isDigit, r.dropWhile Char.isDigit)
    | r => ([], r)
  if whole ++ fraction = [] then none
  else
    let coefficient := Text.valueOfDigits (whole ++ fraction)
    match rest with
    | [] => some ⟨negative, coefficient, -(fraction.length : Int)⟩
    | 'e' :: r | 'E' :: r => (exponent? r).map fun e => ⟨negative, coefficient, e - fraction.length⟩
    | _ => none

/-- The nearest double to a decimal; what is below half the smallest double is zero. -/
def Spelled.round? (s : Spelled) : Option Binary64 :=
  let size : Int := (Text.digits s.coefficient).length + s.scale
  if s.coefficient = 0 ∨ size < -330 then some (zero s.negative)
  else if 310 < size then none
  else ofRatio? s.negative (s.coefficient * Nat.pow 10 s.scale.toNat) (Nat.pow 10 (-s.scale).toNat)

/-- The finite double that a text writes. -/
def ofText? (cs : List Char) : Option Binary64 := (spelled? cs).bind Spelled.round?

example : ofText? ['1', 'e', '4', '0', '0'] = none ∧ ofText? ['.'] = none := by decide +kernel
example : ofText? ['.', '5'] = ofRatio? false 1 2 := by decide +kernel

end Upkeep.Binary64
