/-
Running a codemod twice.

A codemod is idempotent on an overlay when a second run, on the outcome of the first,
leaves every file as the first run left it.  The check compares the paths that either
run touched; all other paths are read through to the same project, which is the one that
the second run leaves.
-/
import Upkeep.Codemod
import Upkeep.Overlay.Listing

namespace Upkeep

/-- Why the check does not pass. -/
inductive IdempotenceError where
  | failed (codemod : String) (cause : Failure)
  | differs (codemod : String) (paths : List String)
  deriving DecidableEq

/-- The wording of a check that does not pass. -/
def IdempotenceError.message : IdempotenceError → String
  | failed codemod cause => s!"{codemod} failed: {cause.oneLine}"
  | differs codemod paths =>
    s!"{codemod} is not idempotent, a second run changed: " ++ ", ".intercalate paths

/-- The written paths that either overlay touches, ascending and each once. -/
def Overlay.touchedEither (once twice : Overlay) : List String :=
  Overlay.sortNames (((once.records.paths ++ twice.records.paths).map ProjectPath.text).eraseDups)

namespace Codemod

/-- One run, its failure told with the codemod's name. -/
def runNamed (c : Codemod) (options : Options) (o : Overlay) : Except IdempotenceError Overlay :=
  (c.run o options).mapError fun halt => .failed c.name halt.cause

/-- The overlay after one run, if a second run changes nothing in it. -/
def checkIdempotent (c : Codemod) (o : Overlay) (options : Options) :
    Except IdempotenceError Overlay := do
  let first ← c.runNamed options o
  let twice ← c.runNamed options first
  let once := { first with project := twice.project }
  let changed := (once.touchedEither twice).filter fun path =>
    once.content? path ≠ twice.content? path
  if changed = [] then .ok once else .error (.differs c.name changed)

end Codemod

end Upkeep
