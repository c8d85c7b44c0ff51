/-
Pending changes.

A change set says for each touched path what is to become of the file: added, replaced
or deleted.  The paths stand in the order in which they were first touched.
-/
import Upkeep.Entries
import Upkeep.ProjectPath

namespace Upkeep

/-- The kinds of change. -/
inductive ChangeKind where
  | add
  | update
  | delete
  deriving DecidableEq, Repr

/-- The mark of a kind in listings. -/
def ChangeKind.label : ChangeKind → String
  | .add => "ADD"
  | .update => "UPDATE"
  | .delete => "DELETE"

/-- The kinds in the order in which listings group them. -/
def ChangeKind.all : List ChangeKind := [.add, .update, .delete]

/-- What is to become of a file.  Only a deletion has no content. -/
inductive Pending where
  | add (content : String)
  | update (content : String)
  | delete
  deriving DecidableEq, Repr

namespace Pending

def kind : Pending → ChangeKind
  | add _ => .add
  | update _ => .update
  | delete => .delete

/-- The content that the file will have. -/
def content? : Pending → Option String
  | add content | update content => some content
  | delete => none

/-- The same kind of change with another content. -/
def withContent (content : String) : Pending → Pending
  | add _ => add content
  | update _ => update content
  | delete => delete

end Pending

/-- The changes of touched paths, in the order of the first touch. -/
abbrev ChangeSet := Entries ProjectPath Pending

namespace ChangeSet

/-- The touched paths. -/
def paths (cs : ChangeSet) : List ProjectPath := cs.map Prod.fst

/-- The paths with a change of the kind. -/
def ofKind (cs : ChangeSet) (k : ChangeKind) : List ProjectPath :=
  (cs.filter fun c => c.2.kind = k).map Prod.fst

/-- The change of the path written so. -/
def named? (cs : ChangeSet) (path : String) : Option Pending :=
  (cs.find? fun c => c.1.text = path).map Prod.snd

/-- The path is added or updated. -/
def writes (cs : ChangeSet) (path : ProjectPath) : Bool :=
  ((Entries.get? cs path).bind Pending.content?).isSome

/-- A line for each change, grouped by kind. -/
def text (cs : ChangeSet) : String :=
  if cs = [] then "No changes were made\n"
  else
    String.join <| ChangeKind.all.flatMap fun k =>
      (cs.ofKind k).map fun p => s!"{k.label} {p.text}\n"

end ChangeSet

end Upkeep
