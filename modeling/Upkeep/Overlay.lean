/-
Pending changes on top of a project.

An `Overlay` lets files be read and changed without touching the project: what is
pending for a path hides what the store has there, and every other path is read through.
`flush` carries the pending changes out in the order in which their paths were first
touched.

Each operation reads a spelling as a `ProjectPath` and then works on that; the part
after the reading carries the suffix `At`.  A refused operation leaves no overlay, so
the caller goes on with the one it had.
-/
import Upkeep.ChangeSet
import Upkeep.Project

namespace Upkeep

/-- Why an overlay refuses an operation. -/
inductive OverlayError where
  | alreadyExists (path : ProjectPath)
  | notFound (path : ProjectPath)
  | alreadyDeleted (path : ProjectPath)
  deriving DecidableEq

/-- The wording of a refusal. -/
def OverlayError.message : OverlayError → String
  | .alreadyExists p => s!"File {p.text} already exists"
  | .notFound p => s!"File {p.text} does not exist"
  | .alreadyDeleted p => s!"File {p.text} was already deleted"

/-- A project with pending changes on top. -/
structure Overlay where
  project : Project
  records : ChangeSet

namespace Overlay

/-- Nothing pending. -/
def empty (project : Project) : Overlay := ⟨project, []⟩

/-- The path that a spelling names. -/
def resolve (o : Overlay) (spelling : String) : ProjectPath := o.project.resolve spelling

/-- What is pending for the path. -/
def record? (o : Overlay) (p : ProjectPath) : Option Pending := o.records.get? p

/-- The overlay with another change pending for the path. -/
def put (o : Overlay) (p : ProjectPath) (r : Pending) : Overlay :=
  { o with records := o.records.put p r }

/-! ### Looking -/

/-- The text that the file has, pending changes counted in. -/
def contentAt? (o : Overlay) (p : ProjectPath) : Option String :=
  match o.record? p with
  | some r => r.content?
  | none => o.project.content? p

/-- The file is there, pending changes counted in. -/
def hasAt (o : Overlay) (p : ProjectPath) : Bool :=
  match o.record? p with
  | some r => r.kind ≠ .delete
  | none => o.project.isFile p

/-- The text of the file with this spelling. -/
def content? (o : Overlay) (spelling : String) : Option String := o.contentAt? (o.resolve spelling)

/-- A file with this spelling is there. -/
def has (o : Overlay) (spelling : String) : Bool := o.hasAt (o.resolve spelling)

/-- A file with this spelling is in the project, whatever is pending. -/
def onDisk (o : Overlay) (spelling : String) : Bool := o.project.isFile (o.resolve spelling)

/-- Something is pending. -/
def hasChanges (o : Overlay) : Bool := o.records ≠ []

/-! ### Changing -/

/-- Adds a file where there is none. -/
def addAt (o : Overlay) (p : ProjectPath) (content : String) : Except OverlayError Overlay :=
  if o.hasAt p then .error (.alreadyExists p) else .ok (o.put p (.add content))

/-- Replaces the content of a file.  The content that it has already changes nothing, and
a file whose addition is pending stays an addition. -/
def updateAt (o : Overlay) (p : ProjectPath) (content : String) : Except OverlayError Overlay :=
  match o.contentAt? p with
  | none => .error (.notFound p)
  | some current =>
    if current = content then .ok o
    else match o.record? p with
      | some (.add _) => .ok (o.put p (.add content))
      | _ => .ok (o.put p (.update content))

/-- Deletes a file.  A pending addition is forgotten. -/
def deleteAt (o : Overlay) (p : ProjectPath) : Except OverlayError Overlay :=
  match o.record? p with
  | some (.add _) => .ok { o with records := o.records.erase p }
  | some .delete => .error (.alreadyDeleted p)
  | some (.update _) => .ok (o.put p .delete)
  | none => if o.project.isFile p then .ok (o.put p .delete) else .error (.notFound p)

/-- Deletes one file and adds another with its content. -/
def renameAt (o : Overlay) (source target : ProjectPath) : Except OverlayError Overlay :=
  match o.contentAt? source with
  | none => .error (.notFound source)
  | some content =>
    if o.hasAt target then .error (.alreadyExists target)
    else do
      let o ← o.deleteAt source
      o.addAt target content

/-- Adds a file with this spelling. -/
def add (o : Overlay) (spelling content : String) : Except OverlayError Overlay :=
  o.addAt (o.resolve spelling) content

/-- Replaces the content of the file with this spelling. -/
def update (o : Overlay) (spelling content : String) : Except OverlayError Overlay :=
  o.updateAt (o.resolve spelling) content

/-- Deletes the file with this spelling. -/
def delete (o : Overlay) (spelling : String) : Except OverlayError Overlay :=
  o.deleteAt (o.resolve spelling)

/-- Moves the file with the first spelling to the second. -/
def rename (o : Overlay) (source target : String) : Except OverlayError Overlay :=
  o.renameAt (o.resolve source) (o.resolve target)

/-- Another content for a file that is pending anyway, without asking. -/
def reword (o : Overlay) (p : ProjectPath) (content : String) : Overlay :=
  match o.record? p with
  | some r => o.put p (r.withContent content)
  | none => o

end Overlay

end Upkeep
