/-
Running codemods on a project.

A `Session` is a project with what happened to it: the trace lists every call of a
collaborator and every message, each with the project as it was at that moment.  The
collaborators format files, install packages and record checkpoints; what they answer may
depend on how often they were asked before.
-/
import Upkeep.Catalog
import Upkeep.Manifest
import Upkeep.Overlay.Flush
import Upkeep.Settings

namespace Upkeep

/-- What others see of a run. -/
inductive Event where
  /-- The formatter is asked about the content of a file. -/
  | format (path : ProjectPath) (content : String)
  | notice (text : String)
  | report (title description : String) (changes : ChangeSet)
  /-- The packages of the project are installed. -/
  | install
  /-- A checkpoint is recorded. -/
  | commit (message : String)

namespace Event

/-- A call of the formatter. -/
def isFormat : Event → Bool
  | format .. => true
  | _ => false

/-- A call of the installer. -/
def isInstall : Event → Bool
  | install => true
  | _ => false

/-- A call of the checkpoint. -/
def isCommit : Event → Bool
  | commit _ => true
  | _ => false

end Event

/-- An event with the project as it was then. -/
structure Moment where
  event : Event
  project : Project

/-- The services that a run calls.  The first argument counts the earlier calls. -/
structure Collaborators where
  /-- Another content for a file, if it is to have one. -/
  format : Nat → ProjectPath → String → Except Failure (Option String)
  /-- Installs the packages of the project. -/
  install : Nat → Project → Except Failure Unit
  /-- Records the state of the project under a message, where that is wanted. -/
  checkpoint : Option (Nat → String → Except Failure Unit)

/-- Collaborators that do nothing. -/
def Collaborators.none : Collaborators := ⟨fun _ _ _ => .ok .none, fun _ _ => .ok (), .none⟩

/-- A project, and what has been done with it. -/
structure Session where
  project : Project
  /-- The manifest at the last installation. -/
  installed : Option String
  /-- What happened, oldest first. -/
  trace : List Moment

/-- The result of one step. -/
structure Outcome where
  name : String
  changes : ChangeSet
  /-- The packages were installed. -/
  installed : Bool
  /-- A checkpoint was recorded. -/
  committed : Bool

/-- Why a step or a batch stopped. -/
inductive RunError where
  | validation (e : ValidationError)
  | execution (codemod : String) (cause : Failure)
  | flush (codemod : String) (cause : FlushError)
  | checkpoint (codemod : String) (cause : Failure)
  | settings (e : SettingsError)

namespace RunError

/-- The wording of a stopped run. -/
def message : RunError → String
  | validation e => e.message
  | execution codemod cause => s!"Error running {codemod}: {cause.message}"
  | flush codemod cause => s!"{codemod}: {cause.message}"
  | checkpoint codemod cause => s!"Failed to create a checkpoint after {codemod}: {cause.message}"
  | settings e => e.message

/-- The texts behind the message, outermost first. -/
def causes : RunError → List String
  | validation _ => []
  | execution _ cause | checkpoint _ cause => cause.chain
  | flush _ cause => [cause.message, cause.cause.message]
  | settings (.unreadable _ problem) => [problem.message]
  | settings (.unwritable _ cause) => [cause.message]

end RunError

namespace Session

/-- A session in which nothing has happened yet. -/
def start (project : Project) : Session := ⟨project, none, []⟩

/-- Writes an event down. -/
def note (s : Session) (e : Event) : Session := { s with trace := s.trace ++ [⟨e, s.project⟩] }

/-- The session once files have changed in the store.  Whatever base an overlay is on, the session
goes on at its own. -/
def atop (s : Session) (store : Store) : Session := { s with project := s.project.atop store }

/-- How often events of a kind have happened. -/
def count (s : Session) (kind : Event → Bool) : Nat := s.trace.countP fun m => kind m.event

end Session

end Upkeep
