/-
The commands of the tool.

`update` brings a project up to date: it runs the migrations between the version that the
project records and that of the tool, or a single one.  `add` runs an addition.
`migrations` lists what there is.  Without arguments that say what to do, nothing is done.
-/
import Upkeep.Console.Check
import Upkeep.Console.Help
import Upkeep.Console.Workshop
import Upkeep.Registry

namespace Upkeep.Console

/-- The version of a project that records none. -/
def unversioned : String := "0.0.0"

/-! ### Updating -/

/-- Runs a single migration, whatever version the project records. -/
def runOnly (w : Workshop) (s : Store) (key : String) : Ending :=
  match Catalog.findMigration Registry.migrations key with
  | .error e => .stopped s (.catalog e)
  | .ok m =>
    let (session, result) := (Session.start ⟨w.root, s⟩).runMigration w.collaborators m []
    w.conclude session result s!"Ran migration {key}"

/-- The migrations that a project at a version lacks; nothing if it is up to date. -/
def lacking (first : String) : Except CatalogError (Option (List Migration)) := do
  let recorded ← Catalog.readVersion first
  let current ← Catalog.readVersion Registry.toolVersion
  if current ≤ recorded then return none
  else return some (← Catalog.selectRange Registry.migrations first Registry.toolVersion)

/-- Runs the migrations that the project lacks. -/
def runLacking (w : Workshop) (s : Store) : Ending :=
  let project : Project := ⟨w.root, s⟩
  let settings := Settings.load project
  let first := settings.version.getD unversioned
  match lacking first with
  | .error e => .stopped s (.catalog e)
  | .ok none =>
    ⟨.print s!"Nothing to update, the project is already at {first}.\n", s, .ok ()⟩
  | .ok (some ms) =>
    let start := Session.start project
    let ran := start.runMigrations w.collaborators ms Registry.toolVersion settings []
    w.conclude ran.session ran.result s!"Updated project to version {Registry.toolVersion}"

/-- Updates a project. -/
def update (a : Surroundings) (s : Store) (mode : Mode) (only : Option String) : Ending :=
  let root := mode.path.getD a.directory
  checked a s root mode.force fun () =>
    let w := Workshop.forProject a s root mode.commit
    match only with
    | some key => runOnly w s key
    | none => runLacking w s

/-! ### Adding -/

/-- The line of an option. -/
def flagLine (f : Flag) : String :=
  "      --option " ++ f.name ++ "=…" ++ (if f.required then " (required)" else "") ++ "  " ++
    f.description ++ "\n"

/-- The lines of an addition: its name, and its options. -/
def additionLines (color : Bool) (a : Addition) : String :=
  "  " ++ Paint.bold.apply color a.name ++ " " ++ a.description ++ "\n" ++
    String.join (a.codemod.flags.map flagLine)

/-- The additions that there are. -/
def availableAdditions (color : Bool) : String :=
  "Available additions:\n" ++ String.join (Registry.additions.map (additionLines color))

/-- Runs an addition with options as they were given; the last value of an option counts. -/
def runAddition (w : Workshop) (s : Store) (a : Addition) (options : List (String × String)) :
    Ending :=
  let project : Project := ⟨w.root, s⟩
  let raw := Entries.putAll [] (options.map fun (key, value) => (key, .string value))
  let ran := (Session.start project).runAddition w.collaborators a (Settings.load project) raw
  w.conclude ran.session ran.result s!"Added {a.name}"

/-- Adds to a project. -/
def add (a : Surroundings) (s : Store) (mode : Mode) (name : Option String)
    (options : List (String × String)) : Ending :=
  match name with
  | none => ⟨.warn (availableAdditions a.color ++ "\n"), s, .error .noAddition⟩
  | some name => match Catalog.findAddition Registry.additions name with
    | .error e => .stopped s (.catalog e)
    | .ok addition =>
      let root := mode.path.getD a.directory
      checked a s root mode.force fun () =>
        runAddition (Workshop.forProject a s root mode.commit) s addition options

/-! ### Listing -/

/-- The line of a migration. -/
def migrationLine (color : Bool) (m : Migration) : String :=
  Paint.dimmed.apply color m.version ++ " " ++ Paint.bold.apply color m.key ++ " " ++
    m.description ++ "\n"

/-- Lists the migrations between two versions. -/
def listMigrations (a : Surroundings) (s : Store) (first last : Option String) : Ending :=
  let first := first.getD unversioned
  let last := last.getD Registry.toolVersion
  match Catalog.selectRange Registry.migrations first last with
  | .error e => .stopped s (.catalog e)
  | .ok [] => ⟨.print s!"No migrations between {first} and {last}\n", s, .ok ()⟩
  | .ok ms => ⟨.print (String.join (ms.map (migrationLine a.color))), s, .ok ()⟩

/-! ### The tool -/

/-- Does what is asked for. -/
def perform (a : Surroundings) (s : Store) : Request → Ending
  | .version => ⟨.print s!"scaffold {Registry.toolVersion}\n", s, .ok ()⟩
  | .help topic => ⟨.print (helpPage topic).text, s, .ok ()⟩
  | .update mode only => update a s mode only
  | .add mode name options => add a s mode name options
  | .migrations first last => listMigrations a s first last

/-- Does what the arguments ask for, and shows why it fails where it does. -/
def run (a : Surroundings) (s : Store) (args : List String) : Ending :=
  let ending : Ending := match Request.read args with
    | .error e => .stopped s (.usage e)
    | .ok request => perform a s request
  ending.showFailure a.color

end Upkeep.Console
