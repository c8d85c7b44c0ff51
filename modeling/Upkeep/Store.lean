/-
Where the files of a project are kept.

A `Store` is either memory or a disk.  Both answer the same five accesses; whoever goes
through a `Project` cannot tell them apart.  An access that changes something answers the
store as it is afterwards, in any case, and why it was refused where it was.
-/
import Upkeep.Store.Memory
import Upkeep.Store.Disk

namespace Upkeep

/-- The files that a project stands on. -/
inductive Store where
  | memory (m : Memory)
  | disk (d : Disk)
  deriving Repr

namespace Store

/-- The text of the file at the path. -/
def read : Store → String → Except StoreError String
  | memory m, path => m.read path
  | disk d, path => d.read path

/-- The components lead to a file. -/
def leadsToFile : Store → List Component → Bool
  | memory m, cs => m.leadsToFile cs
  | disk d, cs => d.leadsToFile cs

/-- A file is at the path. -/
def isFile (s : Store) (path : String) : Bool := s.leadsToFile (Path.components path)

/-- The names of the entries of a directory, in no order. -/
def list : Store → String → Except StoreError (List String)
  | memory m, path => m.list path
  | disk d, path => d.list path

/-- The store after an access that changes everything it is to change or nothing. -/
def attempt (s : Store) : Except StoreError Store → Store × Option StoreError
  | .ok t => (t, none)
  | .error e => (s, some e)

/-- Stores a text at the path. -/
def write : Store → String → String → Store × Option StoreError
  | memory m, path, content => (memory m).attempt ((m.write path content).map memory)
  | disk d, path, content =>
    let (d, error) := d.write path content
    (disk d, error)

/-- Removes the file at the path. -/
def remove : Store → String → Store × Option StoreError
  | memory m, path => (memory m).attempt ((m.remove path).map memory)
  | disk d, path => (disk d).attempt ((d.remove path).map disk)

end Store

end Upkeep
