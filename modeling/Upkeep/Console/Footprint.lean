/-
The files that a command may look at.

The codemods of the tool know their files by name, and so do the settings, the manifest,
the formatter and the lockfiles; a command looks at these and lists no directory.  A tool
that has only these at hand answers as if it had the whole tree.
-/
import Upkeep.Console.Check
import Upkeep.Console.Workshop
import Upkeep.Registry

namespace Upkeep.Console

/-- The files of a project that settings and codemods look at, whatever the options. -/
def fixedFiles : List String :=
  [ Settings.recordedPath.text, Settings.userPath.text, Manifest.path, EslintDeprecation.configPath,
    TestingLibraryTypes.typesPath, BundleGrafanaUi.externalsPath, BundleGrafanaUi.olderPath,
    BundleGrafanaUi.pluginPath, ExampleAddition.deprecatedPath, ExampleAddition.oldConfigPath,
    ExampleAddition.configPath ]

/-- The lockfiles on the way up from a project. -/
def lockfiles (root : String) : List (List Component) :=
  (Path.ancestors (Path.components root)).flatMap fun cs =>
    PackageManagerKind.byLockfile.map fun k => cs ++ [.name k.lockfile]

/-- The files that a run on a project may look at, where features have the names. -/
def projectFootprint (root : String) (features : List String) : List (List Component) :=
  let files := fixedFiles ++ features.map ExampleAddition.modulePath
  let named := files.map fun file => Path.components ((ProjectPath.resolve root file).locate root)
  Path.components (pluginFile root) :: Path.components (Prettier.path root) ::
    named ++ lockfiles root

/-- The files that a request may look at, as paths from the current directory. -/
def footprint (directory : String) : Request → List (List Component)
  | .update mode _ => projectFootprint (mode.path.getD directory) []
  | .add mode _ options => projectFootprint (mode.path.getD directory) (options.map Prod.snd)
  | _ => []

end Upkeep.Console
