/-
Formatting: the `prettier` that is installed in a project.

Source goes in and comes back formatted; the path of the file tells the language.  It goes in
before the end of the program is awaited, so a program that does not take it in has failed
whatever its status.  What comes back has to be text.
-/
import Upkeep.Programs
import Upkeep.Store
import Upkeep.Text.Blank

namespace Upkeep.Prettier

/-- Where a project has it. -/
def path (project : String) : String := Path.join project "node_modules/.bin/prettier"

/-- The program of a project, if it has one. -/
def find? (s : Store) (project : String) : Option String :=
  if s.isFile (path project) then some (path project) else none

/-- The settings of ESLint have no ending that tells their language. -/
def languageArguments (file : ProjectPath) : List String :=
  if file.names.getLast? = some ".eslintrc" then ["--parser", "json"] else []

/-- The call that formats the content of a file. -/
def call (program project : String) (file : ProjectPath) (content : String) : Call :=
  { program
    arguments := "--stdin-filepath" :: file.locate project :: languageArguments file
    input := content }

/-- The formatted content. -/
def output (input : String) : Except LaunchError Answer → Except Failure (Option String)
  | .error e => .error (.raised "Failed to run prettier" [e.reason])
  | .ok a =>
    if a.closesInput ∧ input ≠ "" then .error (.raised brokenPipe [])
    else if a.status = 0 then
      match a.stdout.decode with
      | .ok formatted => .ok (some formatted)
      | .error fault => .error (.raised fault.message [])
    else .error (.raised s!"prettier failed: {Text.trimmed a.stderr.shown}" [])

/-- Has the content of a file formatted; nothing where the project has no program for it. -/
def format (programs : Programs) (program : Option String) (project : String) (n : Nat)
    (file : ProjectPath) (content : String) : Transcript × Except Failure (Option String) :=
  match program with
  | none => ({}, .ok none)
  | some program =>
    let c := call program project file content
    let result := programs (.format n) c
    (.ofCall c result, output content result)

end Upkeep.Prettier
