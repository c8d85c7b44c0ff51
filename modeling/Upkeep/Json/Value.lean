/-
JSON documents.

A document is a `Value`.  Members of an object keep the order in which they were
written, and a number is either an integer of the 64-bit ranges or a double: `1` and
`1.0` are different documents and are written differently.  Equality is decided by
comparing structure, members in order.
-/
import Upkeep.Entries
import Upkeep.Binary64

namespace Upkeep.Json

/-- The integers that a document holds exactly: those of 64 bits, signed or unsigned. -/
abbrev Fits (i : Int) : Prop := -9223372036854775808 ≤ i ∧ i < 18446744073709551616

/-- A signed integer of 64 bits fits. -/
theorem fits_of_signed {i : Int} (low : -9223372036854775808 ≤ i) (high : i ≤ 9223372036854775807) :
    Fits i := ⟨low, by omega⟩

/-- A number of a document. -/
inductive Number where
  | integer (i : Int) (fits : Fits i)
  | float (x : Binary64)
  deriving DecidableEq, Repr

/-- A JSON document. -/
inductive Value where
  | null
  | bool (b : Bool)
  | number (n : Number)
  | string (s : String)
  | array (items : List Value)
  | object (members : List (String × Value))
  deriving Repr, Inhabited

/-- The nearest double. -/
def Number.toBinary64 : Number → Binary64
  | .integer i _ => (Binary64.ofInt? i).getD (Binary64.zero false)
  | .float x => x

namespace Value

/-! ### Equality -/

mutual

/-- Equality of documents. -/
def decEq : (v w : Value) → Decidable (v = w)
  | .null, .null => isTrue rfl
  | .bool a, .bool b =>
    if h : a = b then isTrue (h ▸ rfl) else isFalse fun e => h (Value.bool.inj e)
  | .number m, .number n =>
    if h : m = n then isTrue (h ▸ rfl) else isFalse fun e => h (Value.number.inj e)
  | .string s, .string t =>
    if h : s = t then isTrue (h ▸ rfl) else isFalse fun e => h (Value.string.inj e)
  | .array xs, .array ys => match decEqItems xs ys with
    | isTrue h => isTrue (h ▸ rfl)
    | isFalse h => isFalse fun e => h (Value.array.inj e)
  | .object xs, .object ys => match decEqMembers xs ys with
    | isTrue h => isTrue (h ▸ rfl)
    | isFalse h => isFalse fun e => h (Value.object.inj e)
  | .null, .bool _ | .null, .number _ | .null, .string _ | .null, .array _ | .null, .object _
  | .bool _, .null | .bool _, .number _ | .bool _, .string _ | .bool _, .array _
  | .bool _, .object _ | .number _, .null | .number _, .bool _ | .number _, .string _
  | .number _, .array _ | .number _, .object _ | .string _, .null | .string _, .bool _
  | .string _, .number _ | .string _, .array _ | .string _, .object _ | .array _, .null
  | .array _, .bool _ | .array _, .number _ | .array _, .string _ | .array _, .object _
  | .object _, .null | .object _, .bool _ | .object _, .number _ | .object _, .string _
  | .object _, .array _ => isFalse (by intro h; cases h)

/-- Equality of the items of two arrays. -/
def decEqItems : (xs ys : List Value) → Decidable (xs = ys)
  | [], [] => isTrue rfl
  | [], _ :: _ | _ :: _, [] => isFalse (by intro h; cases h)
  | x :: xs, y :: ys => match decEq x y, decEqItems xs ys with
    | isTrue h, isTrue k => isTrue (h ▸ k ▸ rfl)
    | isFalse h, _ => isFalse fun e => h (List.cons.inj e).1
    | _, isFalse h => isFalse fun e => h (List.cons.inj e).2

/-- Equality of the members of two objects, in order. -/
def decEqMembers : (xs ys : List (String × Value)) → Decidable (xs = ys)
  | [], [] => isTrue rfl
  | [], _ :: _ | _ :: _, [] => isFalse (by intro h; cases h)
  | (k, x) :: xs, (l, y) :: ys =>
    if hk : k = l then
      match decEq x y, decEqMembers xs ys with
      | isTrue h, isTrue t => isTrue (hk ▸ h ▸ t ▸ rfl)
      | isFalse h, _ => isFalse fun e => h (Prod.mk.inj (List.cons.inj e).1).2
      | _, isFalse h => isFalse fun e => h (List.cons.inj e).2
    else isFalse fun e => hk (Prod.mk.inj (List.cons.inj e).1).1

end

instance : DecidableEq Value := decEq

/-! ### Looking inside -/

/-- The text of a string. -/
def string? : Value → Option String
  | .string s => some s
  | _ => none

theorem string?_eq_some_iff {v : Value} {s : String} : v.string? = some s ↔ v = .string s := by
  cases v <;> simp [string?]

/-- The items of an array. -/
def items? : Value → Option (List Value)
  | .array items => some items
  | _ => none

/-- The members of an object. -/
def members? : Value → Option (Entries String Value)
  | .object members => some members
  | _ => none

/-- The member of an object with the key. -/
def member? (v : Value) (key : String) : Option Value :=
  v.members?.bind (Entries.get? · key)

/-- The value of a number as a double. -/
def binary64? : Value → Option Binary64
  | .number n => some n.toBinary64
  | _ => none

/-- Changes the member with the key, where there is one. -/
def updateMember (v : Value) (key : String) (f : Value → Value) : Value :=
  match v with
  | .object members =>
    match Entries.get? members key with
    | some w => .object (Entries.put members key (f w))
    | none => v
  | _ => v

end Value

end Upkeep.Json
