/-
Files kept in memory.

A file is found by the components of its path, so all spellings of a path are one file;
it is reported under the spelling that it was first stored with.  Directories are
implied by the files below them.  A path may be closed to some accesses, which are then
denied; whether a file is there can always be asked.
-/
import Upkeep.Entries
import Upkeep.Path
import Upkeep.Store.Error

namespace Upkeep

/-- A file with the spelling of its path that it was first stored with. -/
structure StoredFile where
  path : String
  content : String
  deriving DecidableEq, Repr

/-- Files kept in memory, and the accesses that are denied. -/
structure Memory where
  files : Entries (List Component) StoredFile
  closed : List (List Component × Access)
  deriving Repr

namespace Memory

/-- The access to the path is denied. -/
def isClosed (m : Memory) (path : String) (a : Access) : Bool :=
  (Path.components path, a) ∈ m.closed

/-- The file at the path. -/
def find? (m : Memory) (path : String) : Option StoredFile :=
  m.files.get? (Path.components path)

/-- The content of the file at the path. -/
def read (m : Memory) (path : String) : Except StoreError String :=
  if m.isClosed path .read then .error (.denied path)
  else match m.find? path with
    | some f => .ok f.content
    | none => .error (.missing path)

/-- The components lead to a file. -/
def leadsToFile (m : Memory) (cs : List Component) : Bool := m.files.has cs

/-- A file is at the path. -/
def isFile (m : Memory) (path : String) : Bool := m.leadsToFile (Path.components path)

/-- The names right below the path, each once. -/
def names (m : Memory) (path : String) : List String :=
  let below := m.files.keys.filterMap (Path.within? (Path.components path))
  (below.filterMap fun rest => rest.head?.map Component.text).eraseDups

/-- The entries of a directory; one without entries does not exist. -/
def list (m : Memory) (path : String) : Except StoreError (List String) :=
  if m.isClosed path .list then .error (.denied path)
  else if m.names path = [] then .error (.missing path)
  else .ok (m.names path)

/-- Stores a file; one that is there keeps its spelling. -/
def write (m : Memory) (path content : String) : Except StoreError Memory :=
  if m.isClosed path .write then .error (.denied path)
  else
    let spelling := ((m.find? path).map StoredFile.path).getD path
    .ok { m with files := m.files.put (Path.components path) ⟨spelling, content⟩ }

/-- Removes a file. -/
def remove (m : Memory) (path : String) : Except StoreError Memory :=
  if m.isClosed path .remove then .error (.denied path)
  else if m.isFile path then .ok { m with files := m.files.erase (Path.components path) }
  else .error (.missing path)

/-- Nothing is closed. -/
def Open (m : Memory) : Prop := m.closed = []

end Memory

end Upkeep
