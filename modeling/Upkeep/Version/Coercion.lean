/-
The version that a dependency range stands for.

A declared range such as `^18.0.0`, `~5.2` or `workspace:1.x` is reduced to one version:
the text itself without leading signs where that is a version, and otherwise the first
number in it with up to two more behind points.  Two ranges are compared through the
versions they stand for; tags and unreadable texts have rules of their own.
-/
import Upkeep.Version.Parser

namespace Upkeep.Version

/-- A number of 64 bits in ASCII digits. -/
def word64? (cs : List Char) : Option Nat :=
  (Text.natural? cs).filter fun n => n < UInt64.size

/-- Takes a point and the digits behind it, if both are there. -/
def nextRun (cs : List Char) : List Char × List Char :=
  match cs with
  | '.' :: r =>
    let run := r.takeWhile Text.isDigit
    if run = [] then ([], cs) else (run, r.dropWhile Text.isDigit)
  | _ => ([], cs)

/-- A part that is not written is zero. -/
def partValue? (run : List Char) : Option Nat := if run = [] then some 0 else word64? run

/-- The first number of a text with up to two more behind points. -/
def firstNumbers? (cs : List Char) : Option Version :=
  let start := cs.dropWhile fun c => !Text.isDigit c
  let major := start.takeWhile Text.isDigit
  let (minor, rest) := nextRun (start.dropWhile Text.isDigit)
  let (patch, _) := nextRun rest
  do
    let major ← word64? major
    let minor ← partValue? minor
    let patch ← partValue? patch
    return release major minor patch

/-- The version that a text stands for. -/
def coerce? (text : String) : Option Version :=
  let cleaned := (Text.trim text.toList).dropWhile fun c => c = '=' || c = 'v'
  match parse cleaned with
  | .ok v => some v
  | .error _ => firstNumbers? text.toList

/-- The rank of a text that is a tag and not a version. -/
def tagRank? (text : String) : Option Nat :=
  if text = "*" then some 2
  else if text = "next" then some 1
  else if text = "latest" then some 0
  else none

/-- The first text should replace the second in a declaration.  Tags rank among
themselves; a tag against a version, and a text that cannot be read, always count as
newer.  Otherwise the versions decide, `orEqual` letting equal ones through. -/
def supersedes (incoming existing : String) (orEqual : Bool) : Bool :=
  match tagRank? incoming, tagRank? existing with
  | some a, some b => b < a
  | some _, none | none, some _ => true
  | none, none =>
    match coerce? incoming, coerce? existing with
    | some a, some b => if orEqual then b ≤ a else b < a
    | _, _ => true

example : (coerce? "^18.x").map text = some "18.0.0" := by decide +kernel
example : supersedes "^8.3.0" "^8.10.0" false = false := by decide +kernel

end Upkeep.Version
