/-
Why something stopped.

A `Failure` is a cause of its own kind, or, for failures that come from outside, a text
with the texts of the causes behind it.  `chain` lists the texts from the outermost in.
-/
import Upkeep.Overlay.Flush
import Upkeep.Json.Problem

namespace Upkeep

/-- Why a codemod or a collaborator stopped. -/
inductive Failure where
  /-- The overlay refused an operation. -/
  | refused (e : OverlayError)
  /-- A pending change could not be carried out. -/
  | unflushed (e : FlushError)
  /-- A file that has to be there is not. -/
  | absent (path : String)
  /-- A file that has to be JSON is not. -/
  | unreadable (path : String) (problem : Json.Problem)
  /-- A file that has to be a JSON object is not. -/
  | notAnObject (path : String)
  /-- An option holds a value of the wrong kind. -/
  | unsuited (found expected : String)
  /-- A failure told by texts, outermost first. -/
  | raised (message : String) (causes : List String)
  deriving DecidableEq

namespace Failure

/-- The outermost text. -/
def message : Failure → String
  | refused e => e.message
  | unflushed e => e.message
  | absent path => s!"Cannot find {path}"
  | unreadable path _ => s!"Cannot parse {path}"
  | notAnObject path => s!"{path} is not a JSON object"
  | unsuited found expected => s!"invalid type: {found}, expected {expected}"
  | raised message _ => message

/-- The texts behind the outermost one. -/
def causes : Failure → List String
  | unflushed e => [e.cause.message]
  | unreadable _ problem => [problem.message]
  | raised _ causes => causes
  | _ => []

/-- All texts, outermost first. -/
def chain (f : Failure) : List String := f.message :: f.causes

/-- All texts on one line. -/
def oneLine (f : Failure) : String := ": ".intercalate f.chain

end Failure

end Upkeep
