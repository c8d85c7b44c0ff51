/-
Writing JSON.

One printer serves both written forms: a `Style` says what stands between an item and
the next and after the colon of a member.  In the compact style that is nothing; in the
pretty style each item has its own line, indented two spaces per level, and an empty
array or object stays on one line.
-/
import Upkeep.Json.Value
import Upkeep.Binary64.Layout

namespace Upkeep.Json

/-- What the printer leaves between the marks of a document. -/
structure Style where
  /-- What stands before an item at this depth. -/
  gap : Nat → List Char
  /-- What separates a key from its value. -/
  colon : List Char

/-- Nothing between the marks. -/
def Style.compact : Style := ⟨fun _ => [], [':']⟩

/-- A line for each item, two spaces a level. -/
def Style.pretty : Style := ⟨fun depth => '\n' :: List.replicate (2 * depth) ' ', [':', ' ']⟩

/-- A digit of base sixteen, in lower case. -/
def hexDigit (n : Nat) : Char := (Nat.digitChar n)

/-- The written form of a character inside a string. -/
def escapeChar (c : Char) : List Char :=
  if c = '"' then ['\\', '"']
  else if c = '\\' then ['\\', '\\']
  else if c = '\n' then ['\\', 'n']
  else if c = '\r' then ['\\', 'r']
  else if c = '\t' then ['\\', 't']
  else if c = '\x08' then ['\\', 'b']
  else if c = '\x0c' then ['\\', 'f']
  else if c.toNat < 0x20 then
    ['\\', 'u', '0', '0', hexDigit (c.toNat / 16), hexDigit (c.toNat % 16)]
  else [c]

/-- A string with its quotes. -/
def quote (s : List Char) : List Char := '"' :: (s.flatMap escapeChar ++ ['"'])

/-- An integer in base ten. -/
def integerText (i : Int) : List Char :=
  if i < 0 then '-' :: Text.digits i.natAbs else Text.digits i.natAbs

/-- A number; a double is always seen to be one. -/
def Number.text : Number → List Char
  | .integer i _ => integerText i
  | .float x => Binary64.Layout.document.render x

namespace Value

mutual

/-- A document in a style, `depth` levels in. -/
def render (style : Style) (depth : Nat) : Value → List Char
  | .null => ['n', 'u', 'l', 'l']
  | .bool true => ['t', 'r', 'u', 'e']
  | .bool false => ['f', 'a', 'l', 's', 'e']
  | .number n => n.text
  | .string s => quote s.toList
  | .array [] => ['[', ']']
  | .array (v :: vs) =>
    '[' :: (style.gap (depth + 1) ++ render style (depth + 1) v ++
      renderItems style (depth + 1) vs ++ style.gap depth ++ [']'])
  | .object [] => ['\x7b', '\x7d']
  | .object ((k, v) :: ms) =>
    '\x7b' :: (style.gap (depth + 1) ++ quote k.toList ++ style.colon ++
      render style (depth + 1) v ++ renderMembers style (depth + 1) ms ++
      style.gap depth ++ ['\x7d'])

/-- The items after the first. -/
def renderItems (style : Style) (depth : Nat) : List Value → List Char
  | [] => []
  | v :: vs => ',' :: (style.gap depth ++ render style depth v ++ renderItems style depth vs)

/-- The members after the first. -/
def renderMembers (style : Style) (depth : Nat) : List (String × Value) → List Char
  | [] => []
  | (k, v) :: ms =>
    ',' :: (style.gap depth ++ quote k.toList ++ style.colon ++ render style depth v ++
      renderMembers style depth ms)

end

/-- The document without white space. -/
def compact (v : Value) : String := String.ofList (v.render .compact 0)

/-- The document with a line for each item. -/
def pretty (v : Value) : String := String.ofList (v.render .pretty 0)

end Value

end Upkeep.Json
