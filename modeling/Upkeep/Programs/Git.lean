/-
Version control: the commands of `git` that are used.

Each command runs in a directory and succeeds with its output, without the blanks around
it.  A checkpoint stages everything and then commits it past all hooks.
-/
import Upkeep.Programs
import Upkeep.Text.Blank

namespace Upkeep.Git

/-- A command in a directory. -/
def call (directory : String) (arguments : List String) : Call :=
  { program := "git", arguments := "-C" :: directory :: arguments }

/-- The output of a command that has ended. -/
def output : Except LaunchError Answer → Except Failure String
  | .error e => .error (.raised e.reason [])
  | .ok a =>
    if a.status = 0 then .ok (Text.trimmed a.stdout.shown)
    else .error (.raised s!"git command failed: {Text.trimmed a.stderr.shown}" [])

/-- Asks for a command. -/
def ask (programs : Programs) (occasion : Occasion) (c : Call) :
    Transcript × Except Failure String :=
  let result := programs occasion c
  (.ofCall c result, output result)

/-- The question whether a directory lies in a work tree. -/
def insideCall (directory : String) : Call := call directory ["rev-parse", "--is-inside-work-tree"]

/-- The question what has changed in a work tree. -/
def statusCall (directory : String) : Call := call directory ["status", "--porcelain"]

/-- The command that stages everything. -/
def stageCall (directory : String) : Call := call directory ["add", "-A"]

/-- The command that commits what is staged. -/
def commitCall (directory message : String) : Call :=
  call directory ["commit", "--no-verify", "-m", message]

/-- Whether a directory lies in a work tree. -/
def isWorkTree (programs : Programs) (directory : String) : Transcript × Bool :=
  let (t, result) := ask programs .check (insideCall directory)
  (t, result.toOption = some "true")

/-- Whether a work tree has no changes. -/
def isClean (programs : Programs) (directory : String) : Transcript × Except Failure Bool :=
  let (t, result) := ask programs .check (statusCall directory)
  (t, result.map String.isEmpty)

/-- Commits everything under a message. -/
def commitAll (programs : Programs) (n : Nat) (directory message : String) :
    Transcript × Except Failure Unit :=
  match ask programs (.checkpoint n) (stageCall directory) with
  | (t, .error e) => (t, .error e)
  | (t, .ok _) =>
    let (u, result) := ask programs (.checkpoint n) (commitCall directory message)
    (t ++ u, result.map fun _ => ())

end Upkeep.Git
