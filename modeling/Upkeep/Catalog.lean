/-
Catalogs of migrations and additions.

Migrations belong to versions and are selected by a range of versions: those that lie in
it by the full order, sorted by precedence, entries of equal precedence in the order of
the catalog.  Every version has to be readable, even one that is out of range.
-/
import Upkeep.Codemod
import Upkeep.Version.Parser

namespace Upkeep

/-- A codemod that belongs to a version. -/
structure Migration where
  key : String
  version : String
  description : String
  codemod : Codemod

/-- A codemod that users ask for by name. -/
structure Addition where
  name : String
  description : String
  codemod : Codemod
  /-- The feature flag that is switched on once the addition has been applied. -/
  featureFlag : Option String

/-- Why nothing is found in a catalog. -/
inductive CatalogError where
  | unknownMigration (key : String) (available : List String)
  | unknownAddition (name : String) (available : List String)
  | invalidVersion (version : String) (fault : Version.Fault)
  deriving DecidableEq, Repr

namespace CatalogError

/-- The wording of a failed look-up. -/
def message : CatalogError → String
  | unknownMigration key available =>
    s!"Unknown migration: {key}\n\nAvailable migrations: " ++ ", ".intercalate available
  | unknownAddition name available =>
    s!"Unknown addition: {name}\n\nAvailable additions: " ++ ", ".intercalate available
  | invalidVersion version _ => s!"Invalid version '{version}'"

/-- The texts behind the message. -/
def causes : CatalogError → List String
  | invalidVersion _ fault => [fault.message]
  | _ => []

end CatalogError

namespace Catalog

/-- A version as people write it. -/
def readVersion (text : String) : Except CatalogError Version :=
  (Version.read text).mapError (.invalidVersion text)

/-- Every migration with its version, read in the order of the catalog. -/
def readVersions : List Migration → Except CatalogError (List (Version × Migration))
  | [] => .ok []
  | m :: ms => do
    let v ← readVersion m.version
    let rest ← readVersions ms
    .ok ((v, m) :: rest)

/-- The migrations between two versions, both included. -/
def selectRange (catalog : List Migration) (first last : String) :
    Except CatalogError (List Migration) := do
  let first ← readVersion first
  let last ← readVersion last
  let entries ← readVersions catalog
  let inRange := entries.filter fun (v, _) => first ≤ v ∧ v ≤ last
  .ok ((inRange.mergeSort fun a b => (Version.precedence a.1 b.1).isLE).map Prod.snd)

/-- The first migration with the key. -/
def findMigration (catalog : List Migration) (key : String) : Except CatalogError Migration :=
  match catalog.find? fun m => m.key = key with
  | some m => .ok m
  | none => .error (.unknownMigration key (catalog.map Migration.key))

/-- The first addition with the name. -/
def findAddition (catalog : List Addition) (name : String) : Except CatalogError Addition :=
  match catalog.find? fun a => a.name = name with
  | some a => .ok a
  | none => .error (.unknownAddition name (catalog.map Addition.name))

end Catalog

end Upkeep
