/-
The help on the tool and on its verbs.

A page says what its topic is for and how it is called, and then explains, table by table,
each word that may be written: the words on the left, and what they mean in a column beside
them.
-/
import Upkeep.Console.Arguments

namespace Upkeep.Console

/-- Words with what they mean. -/
structure HelpTable where
  title : String
  entries : List (String × String)
  deriving DecidableEq, Repr

/-- What there is to read on a topic. -/
structure HelpPage where
  about : String
  usage : String
  tables : List HelpTable
  deriving DecidableEq, Repr

/-- The meanings stand in one column, two blanks behind the longest words. -/
def HelpTable.text (t : HelpTable) : String :=
  let width := (t.entries.map fun e => e.1.length).foldl max 0
  let line (e : String × String) : String :=
    "  " ++ e.1 ++ String.ofList (List.replicate (width - e.1.length) ' ') ++ "  " ++ e.2 ++ "\n"
  "\n" ++ t.title ++ ":\n" ++ String.join (t.entries.map line)

/-- The page as it is printed. -/
def HelpPage.text (p : HelpPage) : String :=
  p.about ++ "\n\nUsage: " ++ p.usage ++ "\n" ++ String.join (p.tables.map HelpTable.text)

namespace Verb

/-- The word for a verb. -/
def word : Verb → String
  | update => "update"
  | add => "add"
  | migrations => "migrations"
  | help => "help"

/-- What a verb is for. -/
def about : Verb → String
  | update => "Run the migrations between the project's recorded version and this tool"
  | add => "Add an optional feature to the project"
  | migrations => "List known migrations"
  | help => "Print this message or the help of the given subcommand(s)"

end Verb

namespace Switch

/-- How the switch is written. -/
def form (s : Switch) : String :=
  let letter := match s.letter? with
    | some c => String.ofList ['-', c] ++ ", "
    | none => "    "
  let value := match s.placeholder? with
    | some name => " <" ++ name ++ ">"
    | none => ""
  letter ++ s.text ++ value

/-- What the switch does in front of a verb, or behind it. -/
def about : Option Verb → Switch → String
  | _, debug => "Enable debug logging"
  | _, help => "Print help"
  | _, version => "Print version"
  | _, force => "Skip the git and plugin directory checks"
  | some .add, commit => "Commit the changes once the addition succeeded"
  | _, commit => "Commit the changes of every migration separately"
  | _, path => "Project root (defaults to the current directory)"
  | _, only => "Run only this migration, whatever the recorded version"
  | _, option => "Addition option, may be repeated"
  | _, first => "Lowest migration version to show [default: 0.0.0]"
  | _, last => "Highest migration version to show (defaults to the tool version)"

/-- The switches that a page explains: all that are allowed but the one for debugging. -/
def table (verb : Option Verb) : HelpTable :=
  ⟨"Options", ((allowed verb).filter (· ≠ debug)).map fun s => (s.form, about verb s)⟩

end Switch

/-- The page on a verb, or on the tool. -/
def helpPage : Option Verb → HelpPage
  | none =>
    { about := "Keeps generated plugin projects up to date"
      usage := "scaffold <COMMAND>"
      tables :=
        [ ⟨"Commands", [Verb.update, .add, .migrations, .help].map fun v => (v.word, v.about)⟩,
          Switch.table none ] }
  | some .add =>
    { about := Verb.add.about
      usage := "scaffold add [OPTIONS] [NAME]"
      tables :=
        [⟨"Arguments", [("[NAME]", "Name of the addition to run")]⟩, Switch.table (some .add)] }
  | some .help =>
    { about := Verb.help.about
      usage := "scaffold help [COMMAND]..."
      tables := [⟨"Arguments", [("[COMMAND]...", "Print help for the subcommand(s)")]⟩] }
  | some verb =>
    { about := verb.about
      usage := "scaffold " ++ verb.word ++ " [OPTIONS]"
      tables := [Switch.table (some verb)] }

end Upkeep.Console
