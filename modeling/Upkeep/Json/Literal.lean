/-
Number literals.

A literal is taken apart by the grammar first and valued afterwards.  Its significant
digits are gathered while they fit an unsigned 64-bit number: a digit of the whole part
that no longer fits only raises the power of ten, one of the fraction is dropped.  The
value is then one product or quotient of two doubles, so it is not always the double
nearest to the text.
-/
import Upkeep.Json.Problem

namespace Upkeep.Json

/-- The parts of a number literal. -/
structure Literal where
  negative : Bool
  whole : List Char
  fraction : Option (List Char)
  /-- The exponent: whether it is negative, and its digits. -/
  exponent : Option (Bool × List Char)
  deriving DecidableEq, Repr

namespace Literal

/-- Takes the digits of an exponent, after its mark. -/
def scanExponent (cs : List Char) : Except Stop ((Bool × List Char) × List Char) :=
  let (negative, body) : Bool × List Char := match cs with
    | '+' :: r => (false, r)
    | '-' :: r => (true, r)
    | r => (false, r)
  match body with
  | [] => .error (.here .endOfValue [])
  | c :: r =>
    if c.isDigit then
      .ok ((negative, c :: r.takeWhile Char.isDigit), r.dropWhile Char.isDigit)
    else .error ⟨.badNumber, byteCount body - 1⟩

/-- Takes the exponent, if the text goes on with one. -/
def scanTail (negative : Bool) (whole : List Char) (fraction : Option (List Char))
    (cs : List Char) : Except Stop (Literal × List Char) :=
  match cs with
  | 'e' :: r | 'E' :: r => do
    let (exponent, rest) ← scanExponent r
    .ok (⟨negative, whole, fraction, some exponent⟩, rest)
  | rest => .ok (⟨negative, whole, fraction, none⟩, rest)

/-- Takes the fraction and the exponent, after the whole part. -/
def scanFraction (negative : Bool) (whole : List Char) (cs : List Char) :
    Except Stop (Literal × List Char) :=
  match cs with
  | '.' :: r =>
    let digits := r.takeWhile Char.isDigit
    let rest := r.dropWhile Char.isDigit
    if digits = [] then
      .error (.ahead (if rest = [] then .endOfValue else .badNumber) rest)
    else scanTail negative whole (some digits) rest
  | rest => scanTail negative whole none rest

/-- Takes a literal, after its sign: a whole part has no leading zero. -/
def scan (negative : Bool) (cs : List Char) : Except Stop (Literal × List Char) :=
  match cs with
  | [] => .error (.here .endOfValue [])
  | c :: r =>
    if c = '0' then
      match r with
      | d :: _ => if d.isDigit then .error (.ahead .badNumber r) else scanFraction negative [c] r
      | [] => scanFraction negative [c] []
    else if c.isDigit then
      scanFraction negative (c :: r.takeWhile Char.isDigit) (r.dropWhile Char.isDigit)
    else .error ⟨.badNumber, byteCount cs - 1⟩

/-- Gathers digits while the number fits 64 bits; what is left does not fit. -/
def gather : Nat → List Char → Nat × List Char
  | n, [] => (n, [])
  | n, c :: cs =>
    let m := 10 * n + Text.digitValue c
    if m < UInt64.size then gather m cs else (n, c :: cs)

/-- A number times a power of ten, by one operation on doubles. -/
def scale? (n : Nat) (power : Int) : Option Binary64 := do
  let x ← Binary64.ofInt? n
  if n = 0 then return x
  if 0 ≤ power then
    if power ≤ 308 then x.mul? (← Binary64.tenTo? power.toNat) else none
  else if -308 ≤ power then x.div? (← Binary64.tenTo? (-power).toNat)
  else if -616 ≤ power then
    (← x.div? (← Binary64.tenTo? 308)).div? (← Binary64.tenTo? (-power - 308).toNat)
  else return Binary64.zero false

/-- The number of leading exponent digits after which it no longer fits 31 bits. -/
def overflowAt? : Nat → Nat → List Char → Option Nat
  | _, _, [] => none
  | n, taken, c :: cs =>
    let m := 10 * n + Text.digitValue c
    if 2147483648 ≤ m then some (taken + 1) else overflowAt? m (taken + 1) cs

/-- The value of a literal as a double. -/
def float? (l : Literal) : Option Binary64 :=
  let (n, extra) := gather 0 l.whole
  let digits := l.fraction.getD []
  let (m, dropped) := gather n digits
  let start : Int := (extra.length : Int) - ((digits.length : Int) - dropped.length)
  let x := match l.exponent with
    | none => scale? m start
    | some (negative, ds) =>
      if (overflowAt? 0 0 ds).isSome then
        if m ≠ 0 ∧ negative = false then none else some (Binary64.zero false)
      else
        let e : Int := Text.valueOfDigits ds
        scale? m (if negative then start - e else start + e)
  x.map fun x => if l.negative then x.neg else x

/-- The value of a literal: an integer when it is written as one and fits, and `-0` is a
double. -/
def number? (l : Literal) : Option Number :=
  let n : Int := Text.valueOfDigits l.whole
  let i := if l.negative then -n else n
  if h : l.fraction = none ∧ l.exponent = none ∧ ¬(l.negative ∧ n = 0) ∧ Fits i then
    some (.integer i h.2.2.2)
  else l.float?.map .float

/-- Where the reading of a literal that is too large stops: at its end, or at the digit
with which its exponent grows too long. -/
def tooLargeAt (l : Literal) (rest : List Char) : Nat :=
  match l.exponent with
  | none => byteCount rest
  | some (_, ds) =>
    match overflowAt? 0 0 ds with
    | some taken => byteCount rest + (ds.length - taken)
    | none => byteCount rest

end Literal

end Upkeep.Json
