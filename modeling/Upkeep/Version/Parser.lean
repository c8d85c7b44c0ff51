/-
Reading a version.

`Version.parse` is the strict grammar: three numbers of 64 bits without leading zeros,
an optional pre-release behind a hyphen and optional build metadata behind a plus.
`Version.read` is the grammar for versions that people write: blanks around it and one
leading `v` are let through.
-/
import Upkeep.Version
import Upkeep.Text.Blank
import Upkeep.Text.Quoted

namespace Upkeep.Version

/-- The part of a version that is being read. -/
inductive Part where
  | major
  | minor
  | patch
  | pre
  | build
  deriving DecidableEq, Repr

/-- How a message names a part. -/
def Part.label : Part → String
  | .major => "major version number"
  | .minor => "minor version number"
  | .patch => "patch version number"
  | .pre => "pre-release identifier"
  | .build => "build metadata"

/-- Why a text is no version. -/
inductive Fault where
  | empty
  | endOfText (part : Part)
  | unexpected (part : Part) (c : Char)
  | unexpectedAfter (part : Part) (c : Char)
  | leadingZero (part : Part)
  | tooLarge (part : Part)
  | emptySegment (part : Part)
  deriving DecidableEq, Repr

/-- The wording of a fault. -/
def Fault.message : Fault → String
  | .empty => "empty string, expected a semver version"
  | .endOfText part => s!"unexpected end of input while parsing {part.label}"
  | .unexpected part c => s!"unexpected character {Text.quoteChar c} while parsing {part.label}"
  | .unexpectedAfter part c => s!"unexpected character {Text.quoteChar c} after {part.label}"
  | .leadingZero part => s!"invalid leading zero in {part.label}"
  | .tooLarge part => s!"value of {part.label} exceeds u64::MAX"
  | .emptySegment part => s!"empty identifier segment in {part.label}"

/-- Takes a number: the first digit that makes it wrong decides the fault. -/
def scanNumber (part : Part) (value : Nat) (started : Bool) :
    List Char → Except Fault (Nat × List Char)
  | [] => if started then .ok (value, []) else .error (.endOfText part)
  | c :: cs =>
    if c.isDigit then
      if value = 0 ∧ started then .error (.leadingZero part)
      else
        let next := 10 * value + Text.digitValue c
        if UInt64.size ≤ next then .error (.tooLarge part) else scanNumber part next true cs
    else if started then .ok (value, c :: cs)
    else .error (.unexpected part c)

/-- Takes the point after a number. -/
def scanPoint (part : Part) : List Char → Except Fault (List Char)
  | [] => .error (.endOfText part)
  | c :: cs => if c = '.' then .ok cs else .error (.unexpectedAfter part c)

/-- A character of an identifier. -/
def isIdentifierChar (c : Char) : Bool := c.isAlphanum || c = '-'

/-- Cuts off the identifiers at the front of a text: the characters of identifiers and
the points between them. -/
def spanIdentifiers (cs : List Char) : List Char × List Char :=
  cs.span fun c => isIdentifierChar c || c = '.'

/-- The fault of the first bad identifier: an empty one, or in a pre-release a number
with a leading zero. -/
def identifierFault? (part : Part) : List (List Char) → Option Fault
  | [] => none
  | cs :: rest =>
    if cs = [] then some (.emptySegment part)
    else if part = .pre ∧ isNumeric cs ∧ 1 < cs.length ∧ cs.head? = some '0' then
      some (.leadingZero part)
    else identifierFault? part rest

/-- Takes a list of identifiers with points between them. -/
def scanIdentifiers (part : Part) (cs : List Char) : Except Fault (List (List Char) × List Char) :=
  let (body, rest) := spanIdentifiers cs
  let parts := body.splitOn '.'
  match identifierFault? part parts with
  | some fault => .error fault
  | none => .ok (parts, rest)

/-- An identifier of a pre-release from its letters. -/
def Identifier.ofLetters (cs : List Char) : Identifier :=
  if isNumeric cs then .number (Text.valueOfDigits cs) else .word cs

/-- Takes the build metadata and the end of the text. -/
def scanBuild (last : Part) (v : Version) : List Char → Except Fault Version
  | [] => .ok v
  | c :: cs =>
    if c = '+' then do
      let (build, rest) ← scanIdentifiers .build cs
      match rest with
      | [] => .ok { v with build }
      | d :: _ => .error (.unexpectedAfter .build d)
    else .error (.unexpectedAfter last c)

/-- Takes the pre-release and what follows it. -/
def scanPre (v : Version) : List Char → Except Fault Version
  | '-' :: cs => do
    let (pre, rest) ← scanIdentifiers .pre cs
    scanBuild .pre { v with pre := pre.map Identifier.ofLetters } rest
  | cs => scanBuild .patch v cs

/-- The strict grammar. -/
def parse (cs : List Char) : Except Fault Version :=
  if cs = [] then .error .empty
  else do
    let (major, cs) ← scanNumber .major 0 false cs
    let cs ← scanPoint .major cs
    let (minor, cs) ← scanNumber .minor 0 false cs
    let cs ← scanPoint .minor cs
    let (patch, cs) ← scanNumber .patch 0 false cs
    scanPre (release major minor patch) cs

/-- A version as people write it: blanks around it and one leading `v` are let through. -/
def read (text : String) : Except Fault Version :=
  match Text.trim text.toList with
  | 'v' :: cs => parse cs
  | cs => parse cs

example : (parse "1.2.3-rc.1+b.07".toList).toOption.map text = some "1.2.3-rc.1+b.07" := by
  decide +kernel
example : (parse "1.02.3".toList).isOk = false := by decide +kernel

end Upkeep.Version
