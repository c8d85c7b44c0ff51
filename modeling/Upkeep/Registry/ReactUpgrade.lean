/-
Migration: React 18.3.

A project on React 18 below 18.3 is raised to 18.3, together with its types.
-/
import Upkeep.Codemod
import Upkeep.Manifest

namespace Upkeep.ReactUpgrade

/-- The range that is asked for. -/
def target : String := "^18.3.0"

/-- A version of React that is raised. -/
def isOutdated (v : Version) : Bool := Version.release 18 0 0 ≤ v ∧ v < Version.release 18 3 0

/-- Raises React and its types. -/
def run (o : Overlay) : Except Failure Overlay :=
  if !o.has Manifest.path then .ok o
  else do
    let manifest ← o.readDocument Manifest.path
    match (Manifest.version? manifest "react").bind Version.coerce? with
    | none => .ok o
    | some react =>
      if isOutdated react then
        Manifest.addDependencies o [("react", target), ("react-dom", target)]
          [("@types/react", target), ("@types/react-dom", target)]
      else .ok o

/-- The codemod. -/
def codemod : Codemod := .ofEdit "005-react-18-3" none fun o _ => run o

end Upkeep.ReactUpgrade
