/-
What stops the reading of a document, and where.

A `Stop` is a cause and the number of bytes that were left to read; it becomes a line
and a column only against the whole text.  Lines count from one, columns count the
bytes of the line up to the place.
-/
import Upkeep.Json.Printer
import Upkeep.Text.Quoted

namespace Upkeep.Json

/-- What is wrong with a text. -/
inductive Cause where
  | endOfArray
  | endOfObject
  | endOfString
  | endOfValue
  | colonExpected
  | arrayCommaExpected
  | objectCommaExpected
  | identExpected
  | valueExpected
  | badEscape
  | badNumber
  | numberOutOfRange
  | controlCharacter
  | keyExpected
  | loneSurrogate
  | trailingComma
  | trailingCharacters
  | endOfHexEscape
  | tooDeep
  /-- A value of one kind where another was asked for. -/
  | mismatch (found expected : String)
  deriving DecidableEq, Repr

/-- The wording of a cause. -/
def Cause.text : Cause → String
  | .endOfArray => "EOF while parsing a list"
  | .endOfObject => "EOF while parsing an object"
  | .endOfString => "EOF while parsing a string"
  | .endOfValue => "EOF while parsing a value"
  | .colonExpected => "expected \x60:\x60"
  | .arrayCommaExpected => "expected \x60,\x60 or \x60]\x60"
  | .objectCommaExpected => "expected \x60,\x60 or \x60\x7d\x60"
  | .identExpected => "expected ident"
  | .valueExpected => "expected value"
  | .badEscape => "invalid escape"
  | .badNumber => "invalid number"
  | .numberOutOfRange => "number out of range"
  | .controlCharacter => "control character (\\u0000-\\u001F) found while parsing a string"
  | .keyExpected => "key must be a string"
  | .loneSurrogate => "lone leading surrogate in hex escape"
  | .trailingComma => "trailing comma"
  | .trailingCharacters => "trailing characters"
  | .endOfHexEscape => "unexpected end of hex escape"
  | .tooDeep => "recursion limit exceeded"
  | .mismatch found expected => s!"invalid type: {found}, expected {expected}"

/-- The number of bytes of a text in UTF-8. -/
def byteCount (cs : List Char) : Nat := cs.foldl (fun n c => n + c.utf8Size) 0

/-- A cause, and how many bytes were left when it was met. -/
structure Stop where
  cause : Cause
  remaining : Nat
  deriving DecidableEq, Repr

/-- Stops after what has been read. -/
def Stop.here (cause : Cause) (rest : List Char) : Stop := ⟨cause, byteCount rest⟩

/-- Stops at the next byte, which has only been looked at. -/
def Stop.ahead (cause : Cause) (rest : List Char) : Stop := ⟨cause, byteCount rest - 1⟩

/-- A stop seen against the whole text: the cause with its line and column. -/
structure Problem where
  cause : Cause
  line : Nat
  column : Nat
  deriving DecidableEq, Repr

/-- Line and column after the first `bytes` bytes. -/
def position (line column bytes : Nat) : List Char → Nat × Nat
  | [] => (line, column)
  | c :: cs =>
    if bytes < c.utf8Size then (line, column + bytes)
    else if c = '\n' then position (line + 1) 0 (bytes - 1) cs
    else position line (column + c.utf8Size) (bytes - c.utf8Size) cs

/-- Finds the place of a stop in the text that was being read. -/
def Stop.locate (text : List Char) (s : Stop) : Problem :=
  let (line, column) := position 1 0 (byteCount text - s.remaining) text
  ⟨s.cause, line, column⟩

/-- The wording of a problem. -/
def Problem.message (p : Problem) : String := s!"{p.cause.text} at line {p.line} column {p.column}"

/-- How a message names a value of the wrong kind. -/
def Value.described : Value → String
  | .null => "null"
  | .bool true => "boolean \x60true\x60"
  | .bool false => "boolean \x60false\x60"
  | .number (.integer i _) => s!"integer \x60{i}\x60"
  | .number (.float x) =>
    "floating point \x60" ++ String.ofList (Binary64.Layout.document.render x) ++ "\x60"
  | .string s => "string " ++ Text.quoteText s
  | .array _ => "sequence"
  | .object _ => "map"

end Upkeep.Json
