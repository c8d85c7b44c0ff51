/-
Paths as text and as components.

A path is a text; its components say what it means.  Empty parts between slashes and
parts that are a single point mean nothing, except that a relative path may begin at
`.`; two spellings with the same components name the same place.
-/

namespace Upkeep

/-- A step of a path. -/
inductive Component where
  /-- The leading slash of an absolute path. -/
  | root
  /-- The leading point of a relative path. -/
  | here
  | up
  | name (n : String)
  deriving DecidableEq, Repr

namespace Component

/-- What a part between slashes means. -/
def ofPart? (part : List Char) : Option Component :=
  if part = [] ∨ part = ['.'] then none
  else if part = ['.', '.'] then some .up
  else some (.name (String.ofList part))

/-- The text of a component. -/
def text : Component → String
  | root => "/"
  | here => "."
  | up => ".."
  | name n => n

/-- The text holds the character of number zero, at which a file system takes it to end. -/
def hasNul (c : Component) : Bool := c.text.toList.contains '\x00'

theorem mem_of_ofPart?_eq_name {part : List Char} {n : String} (h : ofPart? part = some (.name n)) :
    n = String.ofList part ∧ part ≠ [] ∧ part ≠ ['.'] ∧ part ≠ ['.', '.'] := by
  unfold ofPart? at h
  split at h
  · simp at h
  · split at h
    · simp at h
    · simp only [Option.some.injEq, name.injEq] at h
      grind

end Component

namespace Path

/-- The components of the parts of a path. -/
def ofParts (parts : List (List Char)) : List Component := parts.filterMap Component.ofPart?

/-- The components of a path. -/
def components (path : String) : List Component :=
  let cs := path.toList
  let parts := cs.splitOn '/'
  if cs.head? = some '/' then .root :: ofParts parts
  else if parts.head? = some ['.'] then .here :: ofParts parts
  else ofParts parts

/-- The path starts at the root of the file system. -/
def isAbsolute (path : String) : Bool := path.toList.head? = some '/'

/-- The second path as seen from the first. -/
def join (base path : String) : String :=
  if isAbsolute path then path
  else if base = "" then path
  else if base.toList.getLast? = some '/' then base ++ path
  else base ++ "/" ++ path

/-- The bytes of the shortest text with the components. -/
def byteSize (cs : List Component) : Nat :=
  let texts := (cs.filter fun c => c ≠ .root).map Component.text
  (if .root ∈ cs then 1 else 0) + ("/".intercalate texts).utf8ByteSize

/-- The paths above a path whose components are given last first, itself included, the
nearest first.  Nothing is above the root of the file system; above the first component of
a relative path is the place that it starts from. -/
def above : List Component → List (List Component)
  | [] => [[]]
  | [.root] => [[.root]]
  | c :: cs => (c :: cs).reverse :: above cs

/-- The paths that a path goes through as it is spelled, itself first. -/
def ancestors (cs : List Component) : List (List Component) := above cs.reverse

/-- The components after those of the base, if the base leads to the path. -/
def within? (base path : List Component) : Option (List Component) :=
  if base.isPrefixOf path then some (path.drop base.length) else none

example : components "./a//b/./../c" = [.here, .name "a", .name "b", .up, .name "c"] := by
  decide +kernel
example : components "/a/" = [.root, .name "a"] ∧ components "" = [] := by decide +kernel

example : ancestors [.here, .name "a"] = [[.here, .name "a"], [.here], []] := by decide +kernel
example : ancestors [.root, .name "a"] = [[.root, .name "a"], [.root]] := by decide +kernel

end Path

end Upkeep
