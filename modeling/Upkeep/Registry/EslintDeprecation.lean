/-
Migration: the deprecation rule of ESLint.

The rule `deprecation/deprecation` gives way to `@typescript-eslint/no-deprecated` in the
overrides for TypeScript sources, and its plugin leaves the manifest.  The configuration
is JSON with lines of block comments between; those lines are set aside before reading
and put in front of what is written.
-/
import Upkeep.Codemod
import Upkeep.Manifest
import Upkeep.Text.Parts
import Upkeep.Text.Search

namespace Upkeep.EslintDeprecation

/-- The configuration of ESLint. -/
def configPath : String := ".config/.eslintrc"

/-- The pattern of the sources whose overrides are revised. -/
def sourcePattern : String := "src/**/*.\x7bts,tsx\x7d"

/-- The rule that goes. -/
def oldRule : String := "deprecation/deprecation"

/-- The rule that comes. -/
def newRule : String := "@typescript-eslint/no-deprecated"

/-- The package that goes. -/
def oldPlugin : String := "eslint-plugin-deprecation"

/-- A line of a block comment. -/
def isCommentLine (line : List Char) : Bool :=
  match Text.trim line with
  | '/' :: '*' :: _ | '*' :: _ => true
  | _ => false

/-- The comment lines of a text. -/
def commentLines (text : String) : List (List Char) := (Text.lines text).filter isCommentLine

/-- The text without its comment lines, every line ended. -/
def body (text : String) : String :=
  let kept := (Text.lines text).filter fun line => !isCommentLine line
  String.ofList (kept.flatMap (· ++ ['\n']))

/-- The override is for the TypeScript sources. -/
def isTarget (override : Json.Value) : Bool :=
  match override.member? "files" with
  | some (.array files) => files.any fun f => f.string? = some sourcePattern
  | some (.string files) => Text.containsText files sourcePattern
  | _ => false

/-- The override sets the old rule. -/
def hasOldRule (override : Json.Value) : Bool :=
  ((override.member? "rules").bind fun rules => rules.member? oldRule).isSome

/-- The members of an override without the old plugin, and without an empty list of
plugins. -/
def dropPlugin (members : Entries String Json.Value) : Entries String Json.Value :=
  match members.get? "plugins" with
  | some (.array plugins) =>
    let kept := plugins.filter fun p => p.string? ≠ some "deprecation"
    if kept = [] then members.erase "plugins" else members.put "plugins" (.array kept)
  | _ => members

/-- The members of an override with the new rule for the old one. -/
def replaceRule (members : Entries String Json.Value) : Entries String Json.Value :=
  match members.get? "rules" with
  | some (.object rules) =>
    members.put "rules" (.object ((Entries.erase rules oldRule).put newRule (.string "warn")))
  | _ => members

/-- An override for TypeScript sources, revised; others stay. -/
def revise (override : Json.Value) : Json.Value :=
  match override with
  | .object members =>
    if isTarget override then .object (replaceRule (dropPlugin members)) else override
  | _ => override

/-- The configuration with its overrides revised. -/
def reviseAll (config : Json.Value) : Json.Value :=
  config.updateMember "overrides" fun
    | .array overrides => .array (overrides.map revise)
    | v => v

/-- The overrides of a configuration. -/
def overrides? (config : Json.Value) : Option (List Json.Value) :=
  (config.member? "overrides").bind Json.Value.items?

/-- Comment lines in front of a document. -/
def withComments (comments : List (List Char)) (v : Json.Value) : String :=
  if comments = [] then v.pretty else Text.unlines comments ++ "\n" ++ v.pretty

/-- Drops the plugin of the old rule from the manifest. -/
def dropPackage (o : Overlay) : Except Failure Overlay :=
  Manifest.removeDependencies o [] [oldPlugin]

/-- Revises the configuration and asks for the packages of the new rule. -/
def reviseFiles (o : Overlay) (comments : List (List Char)) (config : Json.Value) :
    Except Failure Overlay := do
  let o ← (o.update configPath (withComments comments (reviseAll config))).mapError .refused
  Manifest.addDependencies o
    [("@typescript-eslint/eslint-plugin", "^8.3.0"), ("@typescript-eslint/parser", "^8.3.0")] []

/-- Replaces the rule where it is set; the plugin goes in any case. -/
def run (o : Overlay) : Except Failure Overlay :=
  if !o.has configPath || !o.has Manifest.path then .ok o
  else do
    let text := (o.content? configPath).getD ""
    let config ← Overlay.parseDocument configPath (body text)
    match overrides? config with
    | none => dropPackage o
    | some overrides =>
      let o ← if overrides.any hasOldRule then reviseFiles o (commentLines text) config else .ok o
      dropPackage o

/-- The codemod. -/
def codemod : Codemod := .ofEdit "003-update-eslint-deprecation-rule" none fun o _ => run o

end Upkeep.EslintDeprecation
