/-
Addition: an example feature.

Adds a module for a named feature, a script and a development dependency, and tidies two
files of older examples.
-/
import Upkeep.Codemod
import Upkeep.Manifest

namespace Upkeep.ExampleAddition

/-- The module of a feature. -/
def modulePath (featureName : String) : String := s!"src/features/{featureName}.ts"

/-- The deprecated module of older examples. -/
def deprecatedPath : String := "src/deprecated.ts"

/-- The configuration of older examples. -/
def oldConfigPath : String := "src/old-config.json"

/-- The configuration of the example. -/
def configPath : String := "src/new-config.json"

/-- The options of the addition. -/
structure Feature where
  featureName : String
  enabled : Bool
  port : Option Nat
  frameworks : List String
  deriving DecidableEq, Repr

/-- A port as a bound. -/
def portBound (n : Nat) : Option Limit := (Binary64.ofInt? n).map .finite

/-- The options as they are declared. -/
def schema : Schema :=
  [ { name := "featureName", kind := .string, required := true
      description := "Name of the feature module to create"
      bounds := { minLength := some 3, maxLength := some 50 } },
    { name := "enabled", kind := .bool, default := some (.bool true)
      description := "Whether the feature starts enabled" },
    { name := "port", kind := .number
      description := "Port the feature listens on (default 3000)"
      bounds := { minimum := portBound 1000, maximum := portBound 65535 } },
    { name := "frameworks", kind := .list, default := some (.array [.string "react"])
      description := "Comma separated frameworks the feature supports" } ]

/-- A port: an integer of 16 bits. -/
def portOf? : Json.Value → Option Nat
  | .number (.integer i _) => if 0 ≤ i ∧ i < 65536 then some i.toNat else none
  | _ => none

/-- The value of an option that has to be there. -/
def required (options : Options) (name : String) : Except Failure Json.Value :=
  match options.get? name with
  | some v => .ok v
  | none => .error (.raised ("missing field \x60" ++ name ++ "\x60") [])

/-- A value of an option read as what it has to be. -/
def expect (read : Json.Value → Option α) (expected : String) (v : Json.Value) : Except Failure α :=
  match read v with
  | some a => .ok a
  | none => .error (.unsuited v.described expected)

/-- A truth value. -/
def boolOf? : Json.Value → Option Bool
  | .bool b => some b
  | _ => none

/-- A list of texts. -/
def textsOf? (v : Json.Value) : Option (List String) :=
  v.items?.bind fun items => items.mapM Json.Value.string?

/-- Reads the options.  A port may be missing or null. -/
def readFeature (options : Options) : Except Failure Feature := do
  let featureName ← expect Json.Value.string? "a string" (← required options "featureName")
  let enabled ← expect boolOf? "a boolean" (← required options "enabled")
  let port ← match options.get? "port" with
    | none | some .null => .ok none
    | some v => (expect portOf? "u16" v).map some
  let frameworks ← expect textsOf? "a sequence" (← required options "frameworks")
  return { featureName, enabled, port, frameworks }

/-- The module of the feature. -/
def code (f : Feature) : String :=
  let name := f.featureName
  let port := f.port.getD 3000
  let frameworks := (Json.Value.array (f.frameworks.map .string)).compact
  String.join
    [ "export const ", name, " = \x7b\n",
      "  name: '", name, "',\n",
      "  enabled: ", if f.enabled then "true" else "false", ",\n",
      "  port: ", s!"{port}", ",\n",
      "  frameworks: ", frameworks, ",\n",
      "  init() \x7b\n",
      "    console.log('", name, " initialized on port ", s!"{port}", "');\n",
      "  \x7d,\n",
      "\x7d;\n" ]

/-- The name of the script. -/
def scriptName : String := "example-script"

/-- The manifest with the script, where it has scripts and not this one. -/
def withScript? (manifest : Json.Value) (featureName : String) : Option Json.Value := do
  let scripts ← (manifest.member? "scripts").bind Json.Value.members?
  if scripts.has scriptName then none
  else
    let script := Json.Value.string ("echo \"Running " ++ featureName ++ "\"")
    some (manifest.updateMember "scripts" fun _ => .object (scripts.put scriptName script))

/-- Adds the script and the development dependency to the manifest. -/
def editManifest (o : Overlay) (f : Feature) : Except Failure Overlay :=
  if !o.has Manifest.path then .ok o
  else do
    let manifest ← o.readDocument Manifest.path
    let o ← match withScript? manifest f.featureName with
      | some manifest => o.writeDocument Manifest.path manifest
      | none => .ok o
    Manifest.addDependencies o [] [("@types/node", "^20.0.0")]

/-- Adds the module of the feature, unless it is there. -/
def addModule (o : Overlay) (f : Feature) : Except Failure Overlay :=
  if o.has (modulePath f.featureName) then .ok o
  else (o.add (modulePath f.featureName) (code f)).mapError .refused

/-- Deletes the deprecated module of older examples. -/
def deleteDeprecated (o : Overlay) : Except Failure Overlay :=
  if o.has deprecatedPath then (o.delete deprecatedPath).mapError .refused else .ok o

/-- Gives the configuration of older examples its new name. -/
def renameConfig (o : Overlay) : Except Failure Overlay :=
  if o.has oldConfigPath && !o.has configPath then
    (o.rename oldConfigPath configPath).mapError .refused
  else .ok o

/-- The whole addition. -/
def run (o : Overlay) (options : Options) : Except Failure Overlay := do
  let f ← readFeature options
  let o ← editManifest o f
  let o ← addModule o f
  let o ← deleteDeprecated o
  renameConfig o

/-- The codemod. -/
def codemod : Codemod := .ofEdit "example-addition" (some schema) run

end Upkeep.ExampleAddition
