/-
What a command finds around it, how it can fail, and what it leaves.

A command fails with a `CommandError`, which is shown with the causes behind it on lines
of their own.
-/
import Upkeep.Console.Arguments
import Upkeep.Console.Paint
import Upkeep.Pipeline
import Upkeep.Programs
import Upkeep.Store

namespace Upkeep.Console

/-- What a command finds around it. -/
structure Surroundings where
  programs : Programs
  /-- Texts are to be coloured. -/
  color : Bool
  /-- The path of the current directory. -/
  directory : String

/-- Why a command failed. -/
inductive CommandError where
  | usage (e : UsageError)
  /-- The project lies in no work tree. -/
  | noWorkTree
  /-- The work tree has changes. -/
  | unclean
  /-- The project is no plugin. -/
  | noPlugin (root : String)
  /-- Version control gives no answer. -/
  | noStatus (cause : Failure)
  | catalog (e : CatalogError)
  | run (e : RunError)
  /-- No addition has been named. -/
  | noAddition

namespace CommandError

/-- The wording of a failed command. -/
def message : CommandError → String
  | usage e => e.message
  | noWorkTree =>
    "You are not inside a git directory. Run \x60git init\x60 in the root of your project and " ++
      "commit your changes, or use --force to proceed as is."
  | unclean =>
    "Please clean your repository working tree before making changes. Commit your " ++
      "changes or stash them, or use --force to proceed as is."
  | noPlugin root =>
    "Are you inside a plugin directory? We couldn't find a src/plugin.json file under " ++ root ++
      ". Use --force to proceed as is."
  | noStatus cause => cause.message
  | catalog e => e.message
  | run e => e.message
  | noAddition => "No addition specified"

/-- The texts behind the message, outermost first. -/
def causes : CommandError → List String
  | noStatus cause => cause.causes
  | catalog e => e.causes
  | run e => e.causes
  | _ => []

/-- The status with which a failed command ends. -/
def status : CommandError → Nat
  | usage _ => 2
  | _ => 1

/-- How a failure is shown. -/
def shown (color : Bool) (e : CommandError) : String :=
  Paint.red.apply color "Error:" ++ " " ++ e.message ++ "\n" ++
    String.join (e.causes.map fun cause => "  " ++ cause ++ "\n")

end CommandError

/-- What a command leaves. -/
structure Ending where
  transcript : Transcript
  store : Store
  result : Except CommandError Unit

namespace Ending

/-- The status with which the tool ends. -/
def status (e : Ending) : Nat :=
  match e.result with
  | .ok () => 0
  | .error e => e.status

/-- A command that stopped before it changed anything. -/
def stopped (s : Store) (e : CommandError) : Ending := ⟨{}, s, .error e⟩

/-- An ending behind what was shown before. -/
def after (t : Transcript) (e : Ending) : Ending := { e with transcript := t ++ e.transcript }

/-- The ending with its failure shown, if there is one. -/
def showFailure (color : Bool) (e : Ending) : Ending :=
  match e.result with
  | .ok () => e
  | .error failure => { e with transcript := e.transcript ++ .warn (failure.shown color) }

end Ending

/-- The line that tells of a success. -/
def successLine (color : Bool) (text : String) : String :=
  Paint.green.apply color "✓" ++ " " ++ text ++ "\n"

end Upkeep.Console
