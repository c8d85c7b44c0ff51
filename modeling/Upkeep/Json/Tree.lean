/-
A document as it is written.

A `Tree` keeps what a `Value` cannot say: members that repeat a key, numbers beyond the
range of doubles and escapes that name half a surrogate pair; the last two have no value
and read as `none`.  `Tree.value?` is the document meant: a repeated key keeps its first
position and has its last value.
-/
import Upkeep.Json.Value

namespace Upkeep.Json

/-- A document as it is written. -/
inductive Tree where
  | null
  | bool (b : Bool)
  | number (n : Option Number)
  | string (s : Option String)
  | array (items : List Tree)
  | object (members : List (Option String × Tree))
  deriving Inhabited

namespace Tree

mutual

/-- The document meant, if every part of it has a value. -/
def value? : Tree → Option Value
  | .null => some .null
  | .bool b => some (.bool b)
  | .number n => n.map .number
  | .string s => s.map .string
  | .array items => (itemValues? items).map .array
  | .object members => (memberValues? members).map fun ms => .object (Entries.putAll [] ms)

/-- The documents meant by items. -/
def itemValues? : List Tree → Option (List Value)
  | [] => some []
  | t :: ts => match value? t, itemValues? ts with
    | some v, some vs => some (v :: vs)
    | _, _ => none

/-- The members meant, repeated ones included. -/
def memberValues? : List (Option String × Tree) → Option (List (String × Value))
  | [] => some []
  | (k, t) :: ms => match k, value? t, memberValues? ms with
    | some k, some v, some vs => some ((k, v) :: vs)
    | _, _, _ => none

end

end Tree

end Upkeep.Json
