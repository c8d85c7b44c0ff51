/-
Checks before a project is changed.

Changes have to be revertible: the project lies in a work tree of version control, and
that is clean.  And the project has to be a plugin.  The checks change nothing; they stop
at the first that fails.
-/
import Upkeep.Console.Ending
import Upkeep.Programs.Git

namespace Upkeep.Console

/-- The file that makes a project a plugin. -/
def pluginFile (root : String) : String := Path.join root "src/plugin.json"

/-- Checks that the work tree has no changes. -/
def checkClean (programs : Programs) (root : String) : Transcript × Except CommandError Unit :=
  match Git.isClean programs root with
  | (t, .error e) => (t, .error (.noStatus e))
  | (t, .ok clean) => (t, if clean then .ok () else .error .unclean)

/-- Checks that the project is a plugin. -/
def checkPlugin (s : Store) (root : String) : Except CommandError Unit :=
  if s.isFile (pluginFile root) then .ok () else .error (.noPlugin root)

/-- Checks that a project may be changed. -/
def check (programs : Programs) (s : Store) (root : String) :
    Transcript × Except CommandError Unit :=
  match Git.isWorkTree programs root with
  | (t, false) => (t, .error .noWorkTree)
  | (t, true) =>
    let (u, result) := checkClean programs root
    (t ++ u, result.bind fun () => checkPlugin s root)

/-- Goes on with a command once the checks have passed, or without them. -/
def checked (a : Surroundings) (s : Store) (root : String) (force : Bool) (next : Unit → Ending) :
    Ending :=
  if force then next ()
  else match check a.programs s root with
    | (t, .error e) => ⟨t, s, .error e⟩
    | (t, .ok ()) => (next ()).after t

end Upkeep.Console
