/-
Settings of a project.

A project records the version that it was last updated to, and its feature flags, in
`.config/.cprc.json`; a `.cprc.json` of the user overrides flags.  Only the first file
is ever written, and only with flags that were recorded there or set since: a default or
an override of the user never gets into it.
-/
import Upkeep.Project
import Upkeep.Json.Reader
import Upkeep.Text.Blank

namespace Upkeep

/-- Feature flags by name. -/
abbrev Flags := Entries String Bool

/-- What is known of a project. -/
structure Settings where
  /-- The recorded version, if one can be read. -/
  version : Option String
  /-- The flags in force: defaults, recorded flags and overrides of the user. -/
  features : Flags
  /-- The flags that belong into the recorded settings. -/
  recorded : Flags
  deriving DecidableEq, Repr

/-- What a settings file holds. -/
structure SettingsFile where
  version : Option String := none
  features : Flags := []
  deriving DecidableEq, Repr

/-- Why the settings could not be recorded. -/
inductive SettingsError where
  | unreadable (path : String) (problem : Json.Problem)
  | unwritable (path : String) (cause : StoreError)
  deriving DecidableEq, Repr

/-- The wording of a failed recording. -/
def SettingsError.message : SettingsError → String
  | unreadable path problem => s!"Failed to parse {path}: {problem.message}"
  | unwritable path cause => s!"Failed to write {path}: {cause.message}"

namespace SettingsFile

/-- A text. -/
def textOf? : Json.Tree → Option String
  | .string s => s
  | _ => none

/-- A version: a text, or null for none. -/
def versionOf? : Json.Tree → Option (Option String)
  | .null => some none
  | t => (textOf? t).map some

/-- A flag. -/
def flagOf? : Option String × Json.Tree → Option (String × Bool)
  | (some name, .bool b) => some (name, b)
  | _ => none

/-- Flags: an object of truth values. -/
def featuresOf? : Json.Tree → Option Flags
  | .object members => (members.mapM flagOf?).map (Entries.putAll [])
  | _ => none

/-- The values under a key, for each time that it is written. -/
def written (members : List (Option String × Json.Tree)) (key : String) : List Json.Tree :=
  (members.filter fun m => m.1 = some key).map Prod.snd

/-- A settings file as an object: both members may be missing and neither may be written
twice; other members are passed over. -/
def ofMembers? (members : List (Option String × Json.Tree)) : Option SettingsFile := do
  guard (members.all fun m => m.1.isSome)
  let version ← match written members "version" with
    | [] => some none
    | [t] => versionOf? t
    | _ => none
  let features ← match written members "features" with
    | [] => some []
    | [t] => featuresOf? t
    | _ => none
  return { version, features }

/-- A settings file as a list of the version and, possibly, the flags. -/
def ofItems? : List Json.Tree → Option SettingsFile
  | [t] => (versionOf? t).map fun version => { version }
  | [t, u] => do return { version := ← versionOf? t, features := ← featuresOf? u }
  | _ => none

/-- What a text holds, if it is a settings file. -/
def ofText? (text : String) : Option SettingsFile :=
  match Json.readLoose text with
  | some (.object members) => ofMembers? members
  | some (.array items) => ofItems? items
  | _ => none

end SettingsFile

namespace Settings

/-- The recorded settings. -/
def recordedPath : ProjectPath := ⟨[".config", ".cprc.json"], by decide⟩

/-- The overrides of the user. -/
def userPath : ProjectPath := ⟨[".cprc.json"], by decide⟩

/-- The flags of a project that sets none. -/
def defaultFlags : Flags :=
  [("bundleGrafanaUI", false), ("useReactRouterV6", true), ("usePlaywright", true)]

/-- The settings of a project that records none. -/
def initial : Settings := ⟨none, defaultFlags, []⟩

/-- What a settings file of a project holds; nothing if it cannot be read. -/
def readFile (p : Project) (path : ProjectPath) : SettingsFile :=
  ((p.content? path).bind SettingsFile.ofText?).getD {}

/-- The settings of a project. -/
def load (p : Project) : Settings :=
  let root := readFile p recordedPath
  let user := readFile p userPath
  ⟨root.version, (defaultFlags.putAll root.features).putAll user.features, root.features⟩

/-- The version as it is shown. -/
def versionLabel (s : Settings) : String := s.version.getD "n/a"

/-- The flag is on. -/
def feature (s : Settings) (name : String) : Bool := (s.features.get? name).getD false

/-- Sets a flag, in force and for the record. -/
def setFeature (s : Settings) (name : String) (enabled : Bool) : Settings :=
  { s with features := s.features.put name enabled, recorded := s.recorded.put name enabled }

/-- Flags by ascending name. -/
def sortFlags (fs : Flags) : Flags := fs.mergeSort fun a b => a.1 ≤ b.1

/-! ### Recording -/

/-- The document of recorded settings before it is written again: that of the file, or
an empty one where the file is missing, cannot be read or is blank. -/
def oldDocument (p : Project) : Except SettingsError (Entries String Json.Value) :=
  match p.content? recordedPath with
  | some text =>
    if Text.isBlankText text then .ok []
    else (Json.readMembers text).mapError (.unreadable (recordedPath.locate p.base))
  | none => .ok []

/-- The flags of a document with the recorded ones put in. -/
def mergeFlags (s : Settings) (old : Option Json.Value) : Json.Value :=
  let members := (old.bind Json.Value.members?).getD []
  .object (members.putAll ((sortFlags s.recorded).map fun (name, b) => (name, .bool b)))

/-- A document with the version and the recorded flags put in. -/
def mergeInto (s : Settings) (document : Entries String Json.Value) : Entries String Json.Value :=
  let document := match s.version with
    | some version => document.put "version" (.string version)
    | none => document
  if s.recorded = [] then document
  else document.put "features" (s.mergeFlags (document.get? "features"))

/-- The text that is written for a document. -/
def newText (s : Settings) (document : Entries String Json.Value) : String :=
  (Json.Value.object (s.mergeInto document)).pretty ++ "\n"

/-- Records the settings in the project, keeping what else its file holds. -/
def record (s : Settings) (p : Project) : Project × Option SettingsError :=
  match oldDocument p with
  | .error e => (p, some e)
  | .ok document =>
    let (p, error) := p.write recordedPath (s.newText document)
    (p, error.map (.unwritable (recordedPath.locate p.base)))

end Settings

end Upkeep
