/-
Runs: a batch of migrations, one migration, one addition.

A batch runs its steps in order and stops at the first that fails; only after the last
one does the settings' version move.  An addition switches its feature flag on after its
changes are carried out, so that the flag lands in the same checkpoint.

The settings are those in memory; they come back changed even where a run fails.
-/
import Upkeep.Pipeline.Step

namespace Upkeep

/-- What a run leaves: the session, the settings, and its answer. -/
structure Ran (α : Type) where
  session : Session
  settings : Settings
  result : Except RunError α

namespace Session

variable (c : Collaborators)

/-- Runs migrations one after the other, up to the first that fails. -/
def runSteps (s : Session) (raw : Options) :
    List Migration → Session × Except RunError (List Outcome)
  | [] => (s, .ok [])
  | m :: ms =>
    match s.runStep c (.migration m) raw with
    | (s, .error e) => (s, .error e)
    | (s, .ok outcome) =>
      match runSteps s raw ms with
      | (s, .error e) => (s, .error e)
      | (s, .ok outcomes) => (s, .ok (outcome :: outcomes))

/-- The notice in front of a batch. -/
def announcement (ms : List Migration) : String :=
  "Running the following migrations:\n" ++
    if ms = [] then "No migrations to run."
    else "\n".intercalate (ms.map fun m => s!"  - {m.key} ({m.description})")

/-- Records settings in the project. -/
def record (s : Session) (settings : Settings) : Session × Except RunError Unit :=
  match settings.record s.project with
  | (project, none) => ({ s with project }, .ok ())
  | (project, some e) => ({ s with project }, .error (.settings e))

/-- The message of the checkpoint at the end of a batch. -/
def versionMessage (version : String) : String :=
  s!"chore: update {Settings.recordedPath.text} to version {version}."

/-- Records the version that a batch has reached, and a checkpoint for it. -/
def recordVersion (s : Session) (version : String) (settings : Settings)
    (outcomes : List Outcome) : Ran (List Outcome) :=
  let settings := { settings with version := some version }
  match s.record settings with
  | (s, .error e) => ⟨s, settings, .error e⟩
  | (s, .ok ()) =>
    match s.checkpoint c Settings.recordedPath.text (versionMessage version) with
    | (s, .error e) => ⟨s, settings, .error e⟩
    | (s, .ok _) => ⟨s, settings, .ok outcomes⟩

/-- Runs migrations in the given order and then records the version reached. -/
def runMigrations (s : Session) (ms : List Migration) (version : String) (settings : Settings)
    (raw : Options) : Ran (List Outcome) :=
  match (s.note (.notice (announcement ms))).runSteps c raw ms with
  | (s, .error e) => ⟨s, settings, .error e⟩
  | (s, .ok outcomes) => s.recordVersion c version settings outcomes

/-- Runs one migration; the recorded version stays. -/
def runMigration (s : Session) (m : Migration) (raw : Options) :
    Session × Except RunError Outcome :=
  s.runStep c (.migration m) raw

/-- The flag that an addition still has to switch on. -/
def missingFlag? (a : Addition) (settings : Settings) : Option String :=
  a.featureFlag.filter fun flag => !settings.feature flag

/-- The end of an addition: a checkpoint, if anything is to be kept. -/
def finishAddition (s : Session) (a : Addition) (settings : Settings) (outcome : Outcome)
    (keep : Bool) : Ran Outcome :=
  if keep then
    let (s, result) := s.commitStep c (.addition a) outcome
    ⟨s, settings, result⟩
  else ⟨s, settings, .ok outcome⟩

/-- Runs one addition and switches its feature flag on. -/
def runAddition (s : Session) (a : Addition) (settings : Settings) (raw : Options) : Ran Outcome :=
  match s.apply c (.addition a) raw with
  | (s, .error e) => ⟨s, settings, .error e⟩
  | (s, .ok outcome) =>
    match missingFlag? a settings with
    | none => s.finishAddition c a settings outcome (outcome.changes ≠ [])
    | some flag =>
      let settings := settings.setFeature flag true
      match s.record settings with
      | (s, .error e) => ⟨s, settings, .error e⟩
      | (s, .ok ()) => s.finishAddition c a settings outcome true

end Session

end Upkeep
