/-
Installing the packages of a project with its package manager.

The program writes to the streams of the run itself.
-/
import Upkeep.PackageManager
import Upkeep.Programs
import Upkeep.Project

namespace Upkeep.Installation

/-- The call that installs the packages of a project. -/
def call (m : PackageManager) (project : String) : Call :=
  { program := m.kind.program, arguments := m.installArguments, directory := project }

/-- What a call leaves on the streams. -/
def transcript (c : Call) (result : Except LaunchError Answer) : Transcript :=
  match result with
  | .ok a => { stdout := a.stdout.shown, stderr := a.stderr.shown, calls := [c] }
  | .error _ => {}

/-- Whether a call has done its work. -/
def verdict (c : Call) : Except LaunchError Answer → Except Failure Unit
  | .error e => .error (.raised s!"Failed to run {c.program}" [e.reason])
  | .ok a =>
    if a.status = 0 then .ok ()
    else
      let command := " ".intercalate (c.program :: c.arguments)
      .error (.raised s!"{command} exited with exit status: {a.status}" [])

/-- Installs the packages of a project. -/
def run (programs : Programs) (n : Nat) (p : Project) : Transcript × Except Failure Unit :=
  let c := call (PackageManager.detect p.store p.base) p.base
  let result := programs (.install n) c
  (transcript c result, verdict c result)

end Upkeep.Installation
