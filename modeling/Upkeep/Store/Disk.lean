/-
A tree of directories and files.

Places are lists of names from the root of the file system.  A path is walked from the
root or from the current directory one component at a time, and each step needs a
directory to stand in and a name that an entry can have; the refusals are those of a file
system and carry its numbers.  A path that no file system takes is refused before the walk.
-/
import Upkeep.Content
import Upkeep.Entries
import Upkeep.Path
import Upkeep.Store.Error

namespace Upkeep

/-- A place of a file system: the names that lead to it from the root. -/
abbrev Place := List String

/-- A tree of directories and files. -/
structure Disk where
  /-- Where relative paths start. -/
  current : Place
  /-- The directories; the root is one without being listed. -/
  directories : List Place
  files : Entries Place Content
  deriving Repr

/-- Why the file system refuses a step. -/
inductive Refusal where
  | missing
  | notDirectory
  | isDirectory
  | occupied
  /-- A name, or the whole path, is too long. -/
  | tooLong
  /-- The path holds the character that ends a path. -/
  | cutShort
  deriving DecidableEq, Repr

/-- How the file system words a refusal. -/
def Refusal.reason : Refusal → String
  | .missing => "No such file or directory (os error 2)"
  | .notDirectory => "Not a directory (os error 20)"
  | .isDirectory => "Is a directory (os error 21)"
  | .occupied => "File exists (os error 17)"
  | .tooLong => "File name too long (os error 36)"
  | .cutShort => "file name contained an unexpected NUL byte"

/-- A refusal met on the way to a path. -/
def Refusal.at (path : String) : Refusal → StoreError
  | .missing => .missing path
  | r => .io r.reason

namespace Disk

/-- The directories above a place. -/
def above (p : Place) : List Place := (List.range p.length).map fun n => p.take n

/-- The tree with some files and directories and all directories above them. -/
def ofFiles (current : Place) (files : List (Place × Content)) (directories : List Place) : Disk :=
  let parents := (files.map Prod.fst ++ directories).flatMap above
  { current
    directories := ((parents ++ directories).filter fun p => p ≠ []).eraseDups
    files := Entries.putAll [] files }

/-- The place is a directory. -/
def isDirectoryAt (d : Disk) (p : Place) : Bool := p = [] ∨ p ∈ d.directories

/-- Something can only be looked up in a directory. -/
def standIn (d : Disk) (p : Place) : Except Refusal Unit :=
  if d.isDirectoryAt p then .ok ()
  else if d.files.has p then .error .notDirectory
  else .error .missing

/-- The most bytes that the name of an entry can have. -/
def nameLimit : Nat := 255

/-- The most bytes that a path can have. -/
def pathLimit : Nat := 4095

/-- Follows components from a place. -/
def walk (d : Disk) (p : Place) : List Component → Except Refusal Place
  | [] => .ok p
  | .root :: cs => walk d [] cs
  | .here :: cs => walk d p cs
  | .up :: cs => do
    d.standIn p
    walk d p.dropLast cs
  | .name n :: cs => do
    d.standIn p
    if nameLimit < n.utf8ByteSize then .error .tooLong else walk d (p ++ [n]) cs

/-- The place where components end that are taken from the current directory on. -/
def destination (d : Disk) (cs : List Component) : Except Refusal Place :=
  if cs.any Component.hasNul then .error .cutShort
  else if pathLimit < Path.byteSize cs then .error .tooLong
  else d.walk d.current cs

/-- The place that components lead to.  Without any they lead nowhere, although whatever is
joined to them starts in the current directory. -/
def reach (d : Disk) (cs : List Component) : Except Refusal Place :=
  if cs = [] then .error .missing else d.destination cs

/-- The place that a path leads to. -/
def placeOf (d : Disk) (path : String) : Except Refusal Place := d.reach (Path.components path)

/-- The components lead to a file. -/
def leadsToFile (d : Disk) (cs : List Component) : Bool :=
  match d.reach cs with
  | .ok p => d.files.has p
  | .error _ => false

/-- The content of the file at the path, which has to be text. -/
def read (d : Disk) (path : String) : Except StoreError String :=
  match d.placeOf path with
  | .error r => .error (r.at path)
  | .ok p =>
    match d.files.get? p with
    | some (.text s) => .ok s
    | some (.bytes _) => .error (.io "stream did not contain valid UTF-8")
    | none =>
      if d.isDirectoryAt p then .error (Refusal.isDirectory.at path)
      else .error (.missing path)

/-- The entries of a directory. -/
def list (d : Disk) (path : String) : Except StoreError (List String) :=
  match d.placeOf path with
  | .error r => .error (r.at path)
  | .ok p =>
    if d.isDirectoryAt p then
      let entries := d.directories ++ d.files.keys
      .ok ((entries.filter fun q => q ≠ [] ∧ q.dropLast = p).filterMap List.getLast?)
    else if d.files.has p then .error (Refusal.notDirectory.at path)
    else .error (.missing path)

/-- Makes one directory. -/
def makeDirectory (d : Disk) (cs : List Component) : Except Refusal Disk := do
  let p ← d.reach cs
  match cs.getLast? with
  | some (.name _) =>
    if d.isDirectoryAt p ∨ d.files.has p then .error .occupied
    else .ok { d with directories := d.directories ++ [p] }
  | _ => .error .occupied

/-- The components lead to a directory. -/
def leadsToDirectory (d : Disk) (cs : List Component) : Bool :=
  match d.reach cs with
  | .ok p => d.isDirectoryAt p
  | .error _ => false

/-- Makes a directory and those above it that are missing; the components come last
first.  What was made before a refusal stays. -/
def makeDirectories (d : Disk) : List Component → Disk × Option Refusal
  | [] => (d, none)
  | c :: above =>
    let cs := (c :: above).reverse
    match d.makeDirectory cs with
    | .ok d => (d, none)
    | .error .missing =>
      match makeDirectories d above with
      | (d, some r) => (d, some r)
      | (d, none) => match d.makeDirectory cs with
        | .ok d => (d, none)
        | .error r => (d, if d.leadsToDirectory cs then none else some r)
    | .error r => (d, if d.leadsToDirectory cs then none else some r)

/-- Stores a file in a directory that is there. -/
def put (d : Disk) (path content : String) : Except StoreError Disk :=
  match d.placeOf path with
  | .error r => .error (r.at path)
  | .ok p =>
    if d.isDirectoryAt p then .error (Refusal.isDirectory.at path)
    else .ok { d with files := d.files.put p (.text content) }

/-- Stores a file, making the directories that lead to it; these stay even where the file is
refused. -/
def write (d : Disk) (path content : String) : Disk × Option StoreError :=
  match d.makeDirectories (Path.components path).dropLast.reverse with
  | (d, some r) => (d, some (r.at path))
  | (d, none) => match d.put path content with
    | .ok d => (d, none)
    | .error e => (d, some e)

/-- Removes a file. -/
def remove (d : Disk) (path : String) : Except StoreError Disk :=
  match d.placeOf path with
  | .error r => .error (r.at path)
  | .ok p =>
    if d.files.has p then .ok { d with files := d.files.erase p }
    else if d.isDirectoryAt p then .error (Refusal.isDirectory.at path)
    else .error (.missing path)

end Disk

end Upkeep
