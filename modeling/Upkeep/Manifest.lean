/-
Dependencies in the manifest of a project.

The manifest `package.json` declares packages in two sections, each from name to version
range.  A package counts as declared when its entry is a text that is not empty, and an
entry of the first section hides one of the second.  Requests raise a declared package
where it stands, and declare others where they were asked for; the manifest is written
only if an entry changed.
-/
import Upkeep.Overlay.Document
import Upkeep.Version.Coercion

namespace Upkeep.Manifest

/-- The manifest of a project. -/
def path : String := "package.json"

/-- The sections that declare packages. -/
inductive Section where
  | runtime
  | development
  deriving DecidableEq, Repr

/-- The member that holds a section. -/
def Section.key : Section → String
  | .runtime => "dependencies"
  | .development => "devDependencies"

/-- Entries of a section: package names and what is written for them. -/
abbrev Packages := Entries String Json.Value

/-- The entries of a section; none where there is no object. -/
def packages (manifest : Json.Value) (s : Section) : Packages :=
  ((manifest.member? s.key).bind Json.Value.members?).getD []

/-- The range declared for a package in a section. -/
def declared? (ps : Packages) (name : String) : Option String :=
  ((ps.get? name).bind Json.Value.string?).filter fun range => range ≠ ""

/-- The range declared for a package in a manifest.  The first section in which its entry
is a text decides, even if that text is empty. -/
def version? (manifest : Json.Value) (name : String) : Option String :=
  let entry (s : Section) : Option String :=
    ((manifest.member? s.key).bind fun v => v.member? name).bind Json.Value.string?
  ((entry .runtime).or (entry .development)).filter fun range => range ≠ ""

/-! ### Requests -/

/-- A package asked for, with its range and the section it goes to if it is new. -/
structure Request where
  name : String
  range : String
  target : Section
  deriving DecidableEq, Repr

/-- Both sections. -/
structure Declared where
  runtime : Packages
  development : Packages
  deriving DecidableEq

namespace Declared

/-- The sections of a manifest. -/
def ofManifest (manifest : Json.Value) : Declared :=
  ⟨packages manifest .runtime, packages manifest .development⟩

/-- Declares a range in a section. -/
def declare (d : Declared) (s : Section) (name range : String) : Declared :=
  match s with
  | .runtime => { d with runtime := d.runtime.put name (.string range) }
  | .development => { d with development := d.development.put name (.string range) }

/-- The section in which a package is declared, with its range. -/
def find? (d : Declared) (name : String) : Option (Section × String) :=
  match declared? d.runtime name with
  | some range => some (.runtime, range)
  | none => (declared? d.development name).map fun range => (.development, range)

/-- Answers a request: a declared package is only ever raised, in its own section. -/
def request (d : Declared) (r : Request) : Declared :=
  match d.find? r.name with
  | some (s, range) =>
    if Version.supersedes r.range range false then d.declare s r.name r.range else d
  | none => d.declare r.target r.name r.range

/-- Answers requests in order. -/
def requestAll (d : Declared) (rs : List Request) : Declared := rs.foldl request d

end Declared

/-- The entries by ascending name. -/
def sortByName (ps : Packages) : Packages := ps.mergeSort fun a b => a.1 ≤ b.1

/-- The members of a manifest with a section replaced, unless it would be empty. -/
def putSection (members : Entries String Json.Value) (s : Section) (ps : Packages) :
    Entries String Json.Value :=
  if ps = [] then members else members.put s.key (.object (sortByName ps))

/-- The requests for both sections, those for the first one first. -/
def requests (runtime development : List (String × String)) : List Request :=
  (runtime.map fun (name, range) => ⟨name, range, .runtime⟩) ++
    development.map fun (name, range) => ⟨name, range, .development⟩

/-- Declares packages in the manifest or raises the range of declared ones. -/
def addDependencies (o : Overlay) (runtime development : List (String × String)) :
    Except Failure Overlay := do
  let manifest ← o.readDocument path
  let before := Declared.ofManifest manifest
  let after := before.requestAll (requests runtime development)
  if after = before then .ok o
  else match manifest.members? with
    | none => .error (.notAnObject path)
    | some members =>
      o.writeDocument path <| .object <|
        putSection (putSection members .runtime after.runtime) .development after.development

/-! ### Removal -/

/-- The entries without a package that is declared in them. -/
def drop (ps : Packages) (name : String) : Packages :=
  if (declared? ps name).isSome then ps.erase name else ps

/-- The entries without the packages that are declared in them. -/
def dropAll (ps : Packages) (names : List String) : Packages := names.foldl drop ps

/-- The manifest without packages of one section. -/
def dropFrom (manifest : Json.Value) (s : Section) (names : List String) : Json.Value :=
  manifest.updateMember s.key fun
    | .object ps => .object (dropAll ps names)
    | v => v

/-- Drops declared packages from the manifest. -/
def removeDependencies (o : Overlay) (runtime development : List String) :
    Except Failure Overlay := do
  let manifest ← o.readDocument path
  let after := dropFrom (dropFrom manifest .runtime runtime) .development development
  if after = manifest then .ok o else o.writeDocument path after

end Upkeep.Manifest
