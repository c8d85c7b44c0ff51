/-
A project: a base path and the store below it.

Everything that a codemod or the settings do to files goes through these functions,
which take a `ProjectPath` and nothing else; so what they touch lies at the base or
below it by ordinary names.
-/
import Upkeep.ProjectPath
import Upkeep.Store

namespace Upkeep

/-- A project in a store. -/
structure Project where
  base : String
  store : Store
  deriving Repr

namespace Project

/-- The text of a file. -/
def read (p : Project) (path : ProjectPath) : Except StoreError String :=
  p.store.read (path.locate p.base)

/-- The text of a file, if it can be read. -/
def content? (p : Project) (path : ProjectPath) : Option String := (p.read path).toOption

/-- A file is there; the root of the project is none. -/
def isFile (p : Project) (path : ProjectPath) : Bool :=
  path.names ≠ [] && p.store.isFile (path.locate p.base)

/-- The names of the entries of a directory, in no order. -/
def list (p : Project) (path : ProjectPath) : Except StoreError (List String) :=
  p.store.list (path.locate p.base)

/-- Stores a text. -/
def write (p : Project) (path : ProjectPath) (content : String) : Project × Option StoreError :=
  let (store, error) := p.store.write (path.locate p.base) content
  ({ p with store }, error)

/-- Removes a file. -/
def remove (p : Project) (path : ProjectPath) : Project × Option StoreError :=
  let (store, error) := p.store.remove (path.locate p.base)
  ({ p with store }, error)

/-- The project at its own base once its store has changed. -/
def atop (p : Project) (store : Store) : Project := { p with store }

theorem atop_store {p p' : Project} (h : p'.base = p.base) : p.atop p'.store = p' := by
  cases p
  cases p'
  cases h
  rfl

/-- The path that a spelling names in this project. -/
def resolve (p : Project) (spelling : String) : ProjectPath := ProjectPath.resolve p.base spelling

end Project

end Upkeep
