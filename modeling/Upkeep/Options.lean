/-
Options of a codemod.

A codemod may declare its options as a `Schema`, a list of fields.  Raw options come
from a command line as texts, or as JSON values; each field has a kind that a raw value
is coerced to, bounds for the coerced value, and possibly a default.
-/
import Upkeep.Json.Printer
import Upkeep.Binary64.Reading
import Upkeep.Text.Blank

namespace Upkeep

/-- Options by name. -/
abbrev Options := Entries String Json.Value

/-- What the values of a field are. -/
inductive FieldKind where
  | bool
  | string
  | number
  | list
  deriving DecidableEq, Repr

/-- How a message names the values of a kind. -/
def FieldKind.expected : FieldKind → String
  | .bool => "a boolean"
  | .string => "a string"
  | .number => "a number"
  | .list => "a list of strings"

/-- A double that bounds numbers: a finite one, an infinity, or one that is no number. -/
inductive Limit where
  | finite (x : Binary64)
  | infinite (negative : Bool)
  | nan
  deriving DecidableEq, Repr

/-- Bounds on a value: the characters of a string, the size of a number. -/
structure Bounds where
  minLength : Option Nat := none
  maxLength : Option Nat := none
  minimum : Option Limit := none
  maximum : Option Limit := none
  deriving DecidableEq, Repr

/-- A declared option. -/
structure Field where
  name : String
  kind : FieldKind
  required : Bool := false
  default : Option Json.Value := none
  description : String := ""
  bounds : Bounds := {}

/-- The options that a codemod declares. -/
abbrev Schema := List Field

/-- What is wrong with the value of one field. -/
inductive Problem where
  | missing
  | wrongKind (kind : FieldKind)
  | tooShort (least : Nat)
  | tooLong (greatest : Nat)
  | belowMinimum (least : Limit)
  | aboveMaximum (greatest : Limit)
  deriving DecidableEq, Repr

/-- A limit as messages show it. -/
def Limit.text : Limit → String
  | .finite x => String.ofList (Binary64.Layout.message.render x)
  | .infinite false => "inf"
  | .infinite true => "-inf"
  | .nan => "NaN"

/-- The wording of a problem. -/
def Problem.message : Problem → String
  | .missing => "required option is missing"
  | .wrongKind kind => s!"expected {kind.expected}"
  | .tooShort least => s!"must be at least {least} characters"
  | .tooLong greatest => s!"must be at most {greatest} characters"
  | .belowMinimum least => s!"must be at least {least.text}"
  | .aboveMaximum greatest => s!"must be at most {greatest.text}"

/-- A field with the problem of its value. -/
structure FieldFailure where
  field : String
  problem : Problem
  deriving DecidableEq, Repr

def FieldFailure.message (f : FieldFailure) : String := s!"{f.field}: {f.problem.message}"

/-- Every field of a codemod's options that failed. -/
structure ValidationError where
  codemod : String
  failures : List FieldFailure
  deriving DecidableEq, Repr

/-- The wording of failed options: a line for each field. -/
def ValidationError.message (e : ValidationError) : String :=
  s!"Invalid options for {e.codemod}:\n" ++
    "\n".intercalate (e.failures.map fun f => s!"  - {f.message}")

end Upkeep
