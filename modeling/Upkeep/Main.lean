/-
The program.

It reads the files that the request may look at, lets the command run on them in memory,
and then writes what has changed and prints what there is to see.  It starts no other
program, so a command finds none.
-/
import Upkeep.Console.Command
import Upkeep.Console.Footprint

namespace Upkeep.Main

open Console

/-- What is found at a place. -/
inductive Found where
  | file (c : Content)
  | directory
  | nothing

/-- The absolute path of a place. -/
def pathOf (p : Place) : String := "/" ++ "/".intercalate p

/-- Looks at a place. -/
def look (p : Place) : IO Found := do
  try
    return .file (.ofBytes (← IO.FS.readBinFile (pathOf p)))
  catch
    | .noFileOrDirectory .. => return .nothing
    | _ => return .directory

/-- Looks at the places that a path goes through, down to the first that is no directory. -/
def follow (d : Disk) : List Place → IO Disk
  | [] => return d
  | p :: ps => do
    match ← look p with
    | .file c => return { d with files := d.files.put p c }
    | .directory => follow { d with directories := d.directories ++ [p] } ps
    | .nothing => return d

/-- The places that a path goes through, from the root of the file system on. -/
def way (current : Place) (cs : List Component) : List Place :=
  let full := if cs.head? = some .root then cs else current.map .name ++ cs
  (List.range (full.length + 1)).map fun n => ProjectPath.follow (full.take n)

/-- Reads the files that paths lead to, and the directories on their way. -/
def load (current : Place) (paths : List (List Component)) : IO Disk := do
  let d ← paths.foldlM (fun d cs => follow d (way current cs)) ⟨current, [], []⟩
  return Disk.ofFiles current d.files d.directories

/-- Writes what has changed. -/
def save (old new : Disk) : IO Unit := do
  for (p, _) in old.files do
    unless new.files.has p do IO.FS.removeFile (pathOf p)
  for p in new.directories do
    unless old.isDirectoryAt p do IO.FS.createDirAll (pathOf p)
  for (p, c) in new.files do
    match c with
    | .text s => unless old.files.get? p = some c do IO.FS.writeFile (pathOf p) s
    | .bytes _ => pure ()

/-- Runs the tool. -/
def run (args : List String) : IO UInt32 := do
  let directory := toString (← IO.currentDir)
  let current := ProjectPath.follow (Path.components directory)
  let color := (← (← IO.getStdout).isTty) && (← IO.getEnv "NO_COLOR").isNone
  let paths := match Request.read args with
    | .ok request => footprint directory request
    | .error _ => []
  let d ← load current paths
  let ending := Console.run ⟨.none, color, directory⟩ (.disk d) args
  match ending.store with
  | .disk new => save d new
  | .memory _ => pure ()
  (← IO.getStdout).putStr ending.transcript.stdout
  (← IO.getStderr).putStr ending.transcript.stderr
  return ending.status.toUInt32

end Upkeep.Main

/-- The program. -/
def main (args : List String) : IO UInt32 := Upkeep.Main.run args
