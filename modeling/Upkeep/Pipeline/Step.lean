/-
One step of a run.

A step validates the options, runs the codemod on a fresh overlay, has the pending files
formatted, carries the changes out, reports them and installs packages where the
manifest changed.  Up to the point where changes are carried out the project is as the
codemod left it, and a step that fails before it formats leaves no trace.  A formatter or
an installer that fails is told in a notice and changes nothing else.

A codemod may answer an overlay on another base.  Its changes are carried out there, and
everything else goes on at the base of the session.
-/
import Upkeep.Pipeline

namespace Upkeep

/-- The codemods that a run is asked for. -/
inductive Step where
  | migration (m : Migration)
  | addition (a : Addition)

namespace Step

def name : Step → String
  | migration m => m.key
  | addition a => a.name

def description : Step → String
  | migration m => m.description
  | addition a => a.description

def codemod : Step → Codemod
  | migration m => m.codemod
  | addition a => a.codemod

/-- The message of the checkpoint after a step. -/
def commitMessage : Step → String
  | migration m => s!"chore: run create-plugin migration - {m.key}\n\n{m.description}"
  | addition a => s!"chore: add {a.name} support via create-plugin"

end Step

/-- The files of an overlay that are to be written, with their content. -/
def Overlay.pendingFiles (o : Overlay) : List (ProjectPath × String) :=
  o.records.filterMap fun (p, r) => r.content?.map fun content => (p, content)

namespace Session

variable (c : Collaborators)

/-- Has one file formatted. -/
def formatFile (state : Overlay × Session) (file : ProjectPath × String) : Overlay × Session :=
  let (o, s) := state
  let (path, content) := file
  let answer := c.format (s.count Event.isFormat) path content
  let s := s.note (.format path content)
  match answer with
  | .ok (some formatted) => (if formatted = content then o else o.reword path formatted, s)
  | .ok none => (o, s)
  | .error e => (o, s.note (.notice s!"Failed to format {path.text}: {e.oneLine}"))

/-- Has the pending files of an overlay formatted. -/
def formatAll (s : Session) (o : Overlay) : Overlay × Session :=
  o.pendingFiles.foldl (formatFile c) (o, s)

/-- Carries the changes of an overlay out, at its own base. -/
def flush (s : Session) (o : Overlay) : Session × Option FlushError :=
  let (project, failed) := o.flush
  (s.atop project.store, failed)

/-- The manifest as a path. -/
def manifestPath : ProjectPath := ⟨[Manifest.path], by decide⟩

/-- Installs the packages of the project, if the changes write a manifest that differs
from the one at the last installation.  Answers whether that was done. -/
def install (s : Session) (o : Overlay) : Session × Bool :=
  match (o.records.get? manifestPath).bind Pending.content? with
  | none => (s, false)
  | some content =>
    if s.installed = some content then (s, false)
    else
      let answer := c.install (s.count Event.isInstall) s.project
      let s := { s with installed := some content }
      let s := (s.note (.notice "Installing NPM dependencies...")).note .install
      match answer with
      | .ok () => (s, true)
      | .error e => (s.note (.notice s!"Failed to install dependencies: {e.oneLine}"), false)

/-- Validates the options and runs the codemod; nothing else happens yet. -/
def execute (s : Session) (step : Step) (raw : Options) : Session × Except RunError Overlay :=
  match step.codemod.options step.name raw with
  | .error e => (s, .error (.validation e))
  | .ok options => match step.codemod.run (.empty s.project) options with
    | .error halt => (s.atop halt.project.store, .error (.execution step.name halt.cause))
    | .ok o => (s.atop o.project.store, .ok o)

/-- Has an overlay formatted, carries it out, reports it and installs packages. -/
def carryOut (s : Session) (step : Step) (o : Overlay) : Session × Except RunError Outcome :=
  let (o, s) := s.formatAll c o
  match s.flush o with
  | (s, some e) => (s, .error (.flush step.name e))
  | (s, none) =>
    let s := s.note (.report step.name step.description o.records)
    let (s, installed) := s.install c o
    (s, .ok ⟨step.name, o.records, installed, false⟩)

/-- Everything that a step does before its checkpoint. -/
def apply (s : Session) (step : Step) (raw : Options) : Session × Except RunError Outcome :=
  match s.execute step raw with
  | (s, .error e) => (s, .error e)
  | (s, .ok o) => s.carryOut c step o

/-- Records a checkpoint for something named, where that is wanted; answers whether that
was done. -/
def checkpoint (s : Session) (name message : String) : Session × Except RunError Bool :=
  match c.checkpoint with
  | none => (s, .ok false)
  | some commit =>
    let answer := commit (s.count Event.isCommit) message
    let s := s.note (.commit message)
    match answer with
    | .ok () => (s, .ok true)
    | .error e => (s, .error (.checkpoint name e))

/-- Records a checkpoint after a step and puts it into the outcome. -/
def commitStep (s : Session) (step : Step) (outcome : Outcome) :
    Session × Except RunError Outcome :=
  match s.checkpoint c step.name step.commitMessage with
  | (s, .ok committed) => (s, .ok { outcome with committed })
  | (s, .error e) => (s, .error e)

/-- A step with its checkpoint, which is recorded only if something changed. -/
def runStep (s : Session) (step : Step) (raw : Options) : Session × Except RunError Outcome :=
  match s.apply c step raw with
  | (s, .error e) => (s, .error e)
  | (s, .ok outcome) =>
    if outcome.changes = [] then (s, .ok outcome) else s.commitStep c step outcome

end Session

end Upkeep
