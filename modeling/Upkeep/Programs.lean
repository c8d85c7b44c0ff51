/-
Programs that are called, and what is seen from outside.

A program is known by its answers alone: given the occasion and the call it either cannot
be started or ends with a status and what it has written on two streams, which need not be
text.  The occasion counts what has been asked for before, so that a program may answer the
same call differently each time.

A `Transcript` is what a run shows: the texts on its two streams and the programs that it
has started.
-/
import Upkeep.Content
import Upkeep.Failure

namespace Upkeep

/-- A program with what it is given. -/
structure Call where
  program : String
  arguments : List String
  /-- The directory in which it runs; an empty path is the current one. -/
  directory : String := ""
  /-- What it can read. -/
  input : String := ""
  deriving DecidableEq, Repr

/-- How a program ended. -/
structure Answer where
  status : Nat := 0
  stdout : Content := .text ""
  stderr : Content := .text ""
  /-- It would not read on before all of its input was written. -/
  closesInput : Bool := false
  deriving DecidableEq, Repr

/-- Why a program could not be started. -/
inductive LaunchError where
  | missing
  | denied
  deriving DecidableEq, Repr

/-- The system's wording of a failed start. -/
def LaunchError.reason : LaunchError → String
  | .missing => "No such file or directory (os error 2)"
  | .denied => "Permission denied (os error 13)"

/-- The system's wording of a write that nobody reads. -/
def brokenPipe : String := "Broken pipe (os error 32)"

/-- What a program is called for.  The numbers count the earlier calls of the kind. -/
inductive Occasion where
  /-- To see whether the project may be changed. -/
  | check
  | format (n : Nat)
  | install (n : Nat)
  | checkpoint (n : Nat)
  deriving DecidableEq, Repr

/-- The programs that there are. -/
abbrev Programs := Occasion → Call → Except LaunchError Answer

/-- No programs at all. -/
def Programs.none : Programs := fun _ _ => .error .missing

/-- What a run shows. -/
structure Transcript where
  stdout : String := ""
  stderr : String := ""
  /-- The programs that were started, in order. -/
  calls : List Call := []
  deriving DecidableEq, Repr

namespace Transcript

/-- One transcript after the other. -/
protected def append (t u : Transcript) : Transcript :=
  ⟨t.stdout ++ u.stdout, t.stderr ++ u.stderr, t.calls ++ u.calls⟩

instance : Append Transcript := ⟨Transcript.append⟩

@[simp] theorem stdout_append (t u : Transcript) : (t ++ u).stdout = t.stdout ++ u.stdout := rfl

@[simp] theorem stderr_append (t u : Transcript) : (t ++ u).stderr = t.stderr ++ u.stderr := rfl

@[simp] theorem calls_append (t u : Transcript) : (t ++ u).calls = t.calls ++ u.calls := rfl

/-- A text on the first stream. -/
def print (s : String) : Transcript := { stdout := s }

/-- A text on the second stream. -/
def warn (s : String) : Transcript := { stderr := s }

/-- A call, which is seen only if the program could be started. -/
def ofCall (c : Call) (result : Except LaunchError Answer) : Transcript :=
  match result with
  | .ok _ => { calls := [c] }
  | .error _ => {}

end Transcript

end Upkeep
