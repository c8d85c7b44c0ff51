/-
Validating options against a schema.

Each field is judged on its own: a supplied value is coerced to the kind of the field
and then held against its bounds, a value that is not supplied is the default or, if the
field is required, missing.  A null counts as not supplied.  The options are valid when
no field fails, and otherwise every failing field is reported.
-/
import Upkeep.Options

namespace Upkeep

/-- An integer of 64 bits with an optional sign. -/
def integer64? (cs : List Char) : Option Json.Number :=
  let (negative, ds) : Bool × List Char := match cs with
    | '-' :: r => (true, r)
    | '+' :: r => (false, r)
    | r => (false, r)
  (Text.natural? ds).bind fun n =>
    let i : Int := if negative then -(n : Int) else n
    if h : -9223372036854775808 ≤ i ∧ i ≤ 9223372036854775807 then
      some (.integer i (Json.fits_of_signed h.1 h.2))
    else none

/-- The number that a text writes: an integer of 64 bits if it is one, else a double. -/
def numberOfText? (cs : List Char) : Option Json.Number :=
  match integer64? cs with
  | some n => some n
  | none => (Binary64.ofText? cs).map .float

/-- The truth value that a text writes, whatever its case. -/
def boolOfText? (cs : List Char) : Option Bool :=
  let lower := String.ofList (cs.map Char.toLower)
  if lower ∈ ["true", "1", "yes"] then some true
  else if lower ∈ ["false", "0", "no"] then some false
  else none

/-- The items of a text that lists them with commas; empty ones are none. -/
def itemsOfText (cs : List Char) : List (List Char) :=
  ((cs.splitOn ',').map Text.trim).filter fun item => item ≠ []

namespace FieldKind

/-- The value of this kind that a raw value stands for. -/
def coerce? : FieldKind → Json.Value → Option Json.Value
  | .bool, .bool b => some (.bool b)
  | .bool, .string s => (boolOfText? (Text.trim s.toList)).map .bool
  | .number, .number n => some (.number n)
  | .number, .string s => (numberOfText? (Text.trim s.toList)).map .number
  | .string, .string s => some (.string s)
  | .string, .number n => some (.string (String.ofList n.text))
  | .string, .bool b => some (.string (if b then "true" else "false"))
  | .list, .array items =>
    if items.all fun v => v.string?.isSome then some (.array items) else none
  | .list, .string s =>
    some (.array ((itemsOfText s.toList).map fun item => .string (String.ofList item)))
  | _, _ => none

end FieldKind

namespace Limit

/-- The number is smaller than the limit; it is not smaller than one that is no number. -/
def isAbove : Limit → Binary64 → Bool
  | .finite least, x => x.lt least
  | .infinite negative, _ => !negative
  | .nan, _ => false

/-- The number is greater than the limit; it is not greater than one that is no number. -/
def isBelow : Limit → Binary64 → Bool
  | .finite greatest, x => greatest.lt x
  | .infinite negative, _ => negative
  | .nan, _ => false

end Limit

namespace Bounds

/-- The first bound that the length of a string violates. -/
def lengthProblem? (b : Bounds) (length : Nat) : Option Problem :=
  match b.minLength.filter fun least => length < least with
  | some least => some (.tooShort least)
  | none => (b.maxLength.filter fun greatest => greatest < length).map .tooLong

/-- The first bound that the size of a number violates. -/
def sizeProblem? (b : Bounds) (x : Binary64) : Option Problem :=
  match b.minimum.filter fun least => least.isAbove x with
  | some least => some (.belowMinimum least)
  | none => (b.maximum.filter fun greatest => greatest.isBelow x).map .aboveMaximum

/-- The first bound that a value violates; only strings and numbers have bounds. -/
def problem? (b : Bounds) : Json.Value → Option Problem
  | .string s => b.lengthProblem? s.length
  | .number n => b.sizeProblem? n.toBinary64
  | _ => none

end Bounds

namespace Field

/-- A supplied value, coerced and within bounds. -/
def accept (f : Field) (raw : Json.Value) : Except Problem Json.Value :=
  match f.kind.coerce? raw with
  | none => .error (.wrongKind f.kind)
  | some v => match f.bounds.problem? v with
    | some problem => .error problem
    | none => .ok v

/-- The raw value supplied for the field; a null is none. -/
def supplied? (f : Field) (raw : Options) : Option Json.Value :=
  (raw.get? f.name).filter fun v => v ≠ .null

/-- The value of the field, if it has one. -/
def judge (f : Field) (raw : Options) : Except Problem (Option Json.Value) :=
  match f.supplied? raw with
  | some v => (f.accept v).map some
  | none => match f.default with
    | some v => .ok (some v)
    | none => if f.required then .error .missing else .ok none

/-- The value of a field that does not fail and has one. -/
def value? (f : Field) (raw : Options) : Option (String × Json.Value) :=
  match f.judge raw with
  | .ok (some v) => some (f.name, v)
  | _ => none

/-- The failure of a field that fails. -/
def failure? (f : Field) (raw : Options) : Option FieldFailure :=
  match f.judge raw with
  | .error problem => some ⟨f.name, problem⟩
  | .ok _ => none

end Field

/-- The options of a codemod, coerced and complete, or every failing field. -/
def Schema.validate (s : Schema) (codemod : String) (raw : Options) :
    Except ValidationError Options :=
  let failures := s.filterMap fun f => f.failure? raw
  if failures = [] then .ok (Entries.putAll [] (s.filterMap fun f => f.value? raw))
  else .error ⟨codemod, failures⟩

end Upkeep
