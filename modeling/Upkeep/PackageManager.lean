/-
The package manager of a project.

A project names its package manager in the `packageManager` field of its manifest.  Where
that names none that is known, the nearest lockfile on the way up decides, and where there
is none the project is taken for one of the classic `yarn`.  The way up is that of the
path as it is spelled: a relative path is followed to the place it starts from, and no
further.
-/
import Upkeep.Manifest
import Upkeep.Store

namespace Upkeep

/-- The package managers. -/
inductive PackageManagerKind where
  | npm
  | yarn
  | pnpm
  deriving DecidableEq, Repr

/-- A package manager, with its version where the project gives one. -/
structure PackageManager where
  kind : PackageManagerKind
  version : Option String
  deriving DecidableEq, Repr

namespace PackageManagerKind

/-- The name of the program. -/
def program : PackageManagerKind → String
  | npm => "npm"
  | yarn => "yarn"
  | pnpm => "pnpm"

/-- The package manager with the name. -/
def ofName? (name : String) : Option PackageManagerKind :=
  [npm, yarn, pnpm].find? fun k => k.program = name

/-- The file in which it keeps the versions that it has chosen. -/
def lockfile : PackageManagerKind → String
  | yarn => "yarn.lock"
  | pnpm => "pnpm-lock.yaml"
  | npm => "package-lock.json"

/-- The package managers in the order in which lockfiles side by side count. -/
def byLockfile : List PackageManagerKind := [yarn, pnpm, npm]

end PackageManagerKind

namespace PackageManager

/-- The package manager of a project that tells nothing of it. -/
def classic : PackageManager := ⟨.yarn, some "1.22.22"⟩

/-- The written form: the name, and behind an `@` the version. -/
def text (m : PackageManager) : String :=
  match m.version with
  | some version => m.kind.program ++ "@" ++ version
  | none => m.kind.program

/-- The package manager that a written form names. -/
def ofText? (s : String) : Option PackageManager := do
  let (name, version) := Text.cut '@' s.toList
  let kind ← PackageManagerKind.ofName? (String.ofList name)
  return { kind, version := version.map String.ofList }

/-- The package manager that the manifest of a project names. -/
def ofManifest? (s : Store) (project : String) : Option PackageManager := do
  let text ← (s.read (Path.join project Manifest.path)).toOption
  let manifest ← (Json.read text).toOption
  let field ← (manifest.member? "packageManager").bind Json.Value.string?
  ofText? field

/-- The package manager whose lockfile lies in a directory. -/
def ofDirectory? (s : Store) (directory : List Component) : Option PackageManager :=
  (PackageManagerKind.byLockfile.find? fun k =>
    s.leadsToFile (directory ++ [.name k.lockfile])).map fun k => ⟨k, none⟩

/-- The package manager whose lockfile lies nearest on the way up. -/
def ofLockfile? (s : Store) (project : String) : Option PackageManager :=
  (Path.ancestors (Path.components project)).findSome? (ofDirectory? s)

/-- The package manager of a project. -/
def detect (s : Store) (project : String) : PackageManager :=
  ((ofManifest? s project).or (ofLockfile? s project)).getD classic

/-! ### Installing -/

/-- The number in front of the first point of a version, with or without a plus. -/
def major? (version : String) : Option Nat :=
  let digits := match (Text.cut '.' version.toList).1 with
    | '+' :: cs => cs
    | cs => cs
  (Text.natural? digits).filter fun n => n < UInt64.size

/-- A `yarn` that has no option for a quiet installation: one from the second major
version on. -/
def isModernYarn (m : PackageManager) : Bool :=
  m.kind = .yarn && (m.version.bind major?).any fun n => 2 ≤ n

/-- The arguments for a quiet installation. -/
def installArguments (m : PackageManager) : List String :=
  if m.isModernYarn then ["install"] else ["install", "--silent"]

example : (ofText? "yarn@4.1.1").map installArguments = some ["install"] := by decide +kernel
example : (ofText? "npm@10@x").map text = some "npm@10@x" := by decide +kernel

end PackageManager

end Upkeep
