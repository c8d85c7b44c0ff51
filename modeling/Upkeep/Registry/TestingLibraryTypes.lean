/-
Migration: types of the testing library.

From version 6 on `@testing-library/jest-dom` ships its own types.  They are imported in
a file of their own, and the package that held them leaves the manifest.
-/
import Upkeep.Codemod
import Upkeep.Manifest
import Upkeep.Text.Search

namespace Upkeep.TestingLibraryTypes

/-- The file that imports the types. -/
def typesPath : String := ".config/types/setupTests.d.ts"

/-- The package that ships the types. -/
def package : String := "@testing-library/jest-dom"

/-- The package that held the types before. -/
def oldTypes : String := "@types/testing-library__jest-dom"

/-- The line that imports the types. -/
def importLine : String := "import '@testing-library/jest-dom';\n"

/-- The project's version of the package ships the types. -/
def shipsTypes (manifest : Json.Value) : Bool :=
  match Manifest.version? manifest package with
  | some range => Version.supersedes range "6.0.0" true
  | none => false

/-- Has the types imported, in front of what the file holds. -/
def importTypes (o : Overlay) : Except Failure Overlay :=
  match o.content? typesPath with
  | some content =>
    if Text.containsText content package then .ok o
    else (o.update typesPath (importLine ++ content)).mapError .refused
  | none => (o.add typesPath importLine).mapError .refused

/-- Imports the types and drops the old package. -/
def run (o : Overlay) : Except Failure Overlay :=
  if !o.has Manifest.path then .ok o
  else do
    let manifest ← o.readDocument Manifest.path
    if shipsTypes manifest then
      let o ← importTypes o
      Manifest.removeDependencies o [] [oldTypes]
    else .ok o

/-- The codemod. -/
def codemod : Codemod := .ofEdit "007-remove-testing-library-types" none fun o _ => run o

end Upkeep.TestingLibraryTypes
