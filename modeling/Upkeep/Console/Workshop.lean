/-
The services of a run on the command line, and what is seen of it.

Files are formatted, packages installed and checkpoints recorded by programs.  The trace
of a session says which were called and with what; so the transcript of a run is read off
its trace, by asking each program again on the same occasion.
-/
import Upkeep.Console.Ending
import Upkeep.Console.Report
import Upkeep.Pipeline.Run
import Upkeep.Programs.Git
import Upkeep.Programs.Installation
import Upkeep.Programs.Prettier

namespace Upkeep.Console

/-- What a run on a project works with. -/
structure Workshop where
  programs : Programs
  color : Bool
  /-- The root of the project. -/
  root : String
  /-- The program that formats, if the project has one. -/
  formatter : Option String
  /-- Checkpoints are recorded. -/
  commit : Bool

namespace Workshop

/-- The workshop for the project at a root. -/
def forProject (a : Surroundings) (s : Store) (root : String) (commit : Bool) : Workshop :=
  ⟨a.programs, a.color, root, Prettier.find? s root, commit⟩

variable (w : Workshop)

/-- Has the n-th file formatted. -/
def format (n : Nat) (path : ProjectPath) (content : String) :
    Transcript × Except Failure (Option String) :=
  Prettier.format w.programs w.formatter w.root n path content

/-- Records the n-th checkpoint. -/
def record (n : Nat) (message : String) : Transcript × Except Failure Unit :=
  Git.commitAll w.programs n w.root message

/-- The services that a run calls. -/
def collaborators : Collaborators where
  format n path content := (w.format n path content).2
  install n project := (Installation.run w.programs n project).2
  checkpoint := if w.commit then some fun n message => (w.record n message).2 else none

/-- What is seen of an event, after the earlier ones. -/
def seen (earlier : List Moment) (m : Moment) : Transcript :=
  let count (kind : Event → Bool) := earlier.countP fun m => kind m.event
  match m.event with
  | .format path content => (w.format (count Event.isFormat) path content).1
  | .notice text => .warn (text ++ "\n")
  | .report title description changes => .warn (report w.color title description changes)
  | .install => (Installation.run w.programs (count Event.isInstall) m.project).1
  | .commit message => (w.record (count Event.isCommit) message).1

/-- What is seen of a trace that follows earlier events. -/
def seenAfter (earlier : List Moment) : List Moment → Transcript
  | [] => {}
  | m :: ms => w.seen earlier m ++ seenAfter (earlier ++ [m]) ms

/-- What a run leaves: its trace as it is seen, and a line if it went well. -/
def conclude (s : Session) (result : Except RunError α) (success : String) : Ending :=
  let t := w.seenAfter [] s.trace
  match result with
  | .ok _ => ⟨t ++ .warn (successLine w.color success), s.project.store, .ok ()⟩
  | .error e => ⟨t, s.project.store, .error (.run e)⟩

end Workshop

end Upkeep.Console
