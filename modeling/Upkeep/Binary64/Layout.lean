/-
How the digits of a double are laid out.

A `Layout` is the list of decisions that a written number takes beyond its digits: for
which leading exponents it is written positionally, whether a whole number is marked as
one with a fraction, and which way an exact tie between two shortest decimals goes.
-/
import Upkeep.Binary64.Shortest
import Upkeep.Text.Digit

namespace Upkeep.Binary64

/-- The decisions of a written form of doubles. -/
structure Layout where
  /-- Leading exponents `(least, greatest)` written positionally; always if none. -/
  positional : Option (Int × Int)
  /-- A whole number ends in `.0`. -/
  markWhole : Bool
  tie : Tie

/-- Digits around a point: `leading` is the exponent of the first digit. -/
def positionalText (markWhole : Bool) (ds : List Char) (leading : Int) : List Char :=
  if leading < 0 then
    '0' :: '.' :: (List.replicate (-leading - 1).toNat '0' ++ ds)
  else
    let whole := leading.toNat + 1
    if ds.length ≤ whole then
      ds ++ List.replicate (whole - ds.length) '0' ++ (if markWhole then ['.', '0'] else [])
    else
      ds.take whole ++ '.' :: ds.drop whole

/-- One digit, the others behind a point, and the exponent with its sign. -/
def scientificText (ds : List Char) (leading : Int) : List Char :=
  let mantissa := match ds with
    | d :: e :: r => d :: '.' :: e :: r
    | ds => ds
  mantissa ++ 'e' :: (if leading < 0 then '-' else '+') :: Text.digits leading.natAbs

/-- A positive double in a layout. -/
def Layout.magnitudeText (l : Layout) (x : Binary64) : List Char :=
  let d := shortest l.tie x
  let ds := Text.digits d.coefficient
  let leading := d.scale + ds.length - 1
  match l.positional with
  | none => positionalText l.markWhole ds leading
  | some (least, greatest) =>
    if least ≤ leading ∧ leading ≤ greatest then positionalText l.markWhole ds leading
    else scientificText ds leading

/-- A double in a layout. -/
def Layout.render (l : Layout) (x : Binary64) : List Char :=
  let magnitude :=
    if x.significand = 0 then positionalText l.markWhole ['0'] 0 else l.magnitudeText x
  if x.negative then '-' :: magnitude else magnitude

/-- Floats in documents: always seen to be floats, positional from `1e-5` below `1e16`. -/
def Layout.document : Layout := ⟨some (-5, 15), true, .toEven⟩

/-- Numbers in messages: never an exponent, and no mark on whole numbers. -/
def Layout.message : Layout := ⟨none, false, .up⟩

example : (ofRatio? false 3 2).map Layout.document.render = some ['1', '.', '5'] := by
  decide +kernel
example : (ofInt? (10 ^ 20)).map Layout.document.render = some ['1', 'e', '+', '2', '0'] := by
  decide +kernel
example : Layout.message.render (zero true) = ['-', '0'] := by decide +kernel

end Upkeep.Binary64
