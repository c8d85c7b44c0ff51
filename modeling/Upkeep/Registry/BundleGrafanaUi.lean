/-
Addition: bundling `@grafana/ui`.

The package is taken out of the externals of the bundler, `react-inlinesvg` is kept
external, and the plugin asks for the first Grafana that can run it.  The externals are
edited line by line: the list has one element a line.
-/
import Upkeep.Codemod
import Upkeep.Overlay.Document
import Upkeep.Version.Coercion
import Upkeep.Text.Parts
import Upkeep.Text.Search
import Upkeep.Text.Word

namespace Upkeep.BundleGrafanaUi

/-- A line of a source text. -/
abbrev Line := List Char

/-! ### Kinds of lines -/

/-- The line holds this element of a list, with or without a comma. -/
def isElement (element : List Char) (line : Line) : Bool :=
  let trimmed := Text.trim line
  trimmed = element || trimmed = element ++ [',']

/-- The line holds the element for `@grafana/ui`. -/
def isUiElement : Line → Bool := isElement "/^@grafana\\/ui/i".toList

/-- The line holds the element for `@grafana/data`. -/
def isDataElement : Line → Bool := isElement "/^@grafana\\/data/i".toList

/-- The word that a list of externals is named by. -/
def externalsWord : List Char := "externals".toList

/-- No word reaches up to here. -/
def isBoundary (c : Option Char) : Bool := !(c.any Text.isWordChar)

/-- The word for externals stands in the line, and its last character that is not blank
is an opening bracket behind the word.  The character before the line is given. -/
def opensAfter (previous : Option Char) : Line → Bool
  | [] => false
  | c :: cs =>
    let rest := (c :: cs).drop externalsWord.length
    (externalsWord.isPrefixOf (c :: cs) && isBoundary previous && isBoundary rest.head? &&
        (Text.trimEnd rest).getLast? == some '[') ||
      opensAfter (some c) cs

/-- The line opens a list of externals. -/
def opensExternals : Line → Bool := opensAfter none

/-- The line closes a list. -/
def closesList (line : Line) : Bool := (Text.trimStart line).head? = some ']'

/-! ### The edit -/

/-- Where the new element goes: behind the one for `@grafana/data`, or in front of the
end of the first list of externals. -/
def insertionPoint? (lines : List Line) : Option Nat :=
  match lines.findIdx? isDataElement with
  | some i => some (i + 1)
  | none => do
    let start ← lines.findIdx? opensExternals
    let offset ← (lines.drop (start + 1)).findIdx? closesList
    return start + 1 + offset

/-- The blanks in front of a new line: those of the line before it, or, where that opens
the list, those of the end of the list and two more. -/
def indentAt (lines : List Line) (point : Nat) : List Char :=
  let previous := lines.getD (point - 1) []
  if opensExternals previous then Text.indent (lines.getD point []) ++ [' ', ' ']
  else Text.indent previous

/-- The line with a comma behind its last character, where a list needs one. -/
def withComma (line : Line) : Line :=
  let trimmed := Text.trimEnd line
  if trimmed = [] || trimmed.getLast? = some ',' || trimmed.getLast? = some '[' then line
  else trimmed ++ ',' :: line.drop trimmed.length

/-- The element that is added. -/
def newElement : List Char := "'react-inlinesvg',".toList

/-- The lines with the new element at a point behind the first line. -/
def insertElement (lines : List Line) (point : Nat) : List Line :=
  lines.take (point - 1) ++
    [withComma (lines.getD (point - 1) []), indentAt lines point ++ newElement] ++ lines.drop point

/-- The text names the element that would be added. -/
def namesElement (source : String) : Bool :=
  Text.containsText source "'react-inlinesvg'" || Text.containsText source "\"react-inlinesvg\""

/-- Where the new element goes, if the text does not have it yet. -/
def wantedPoint? (source : String) (kept : List Line) : Option Nat :=
  if namesElement source then none else insertionPoint? kept

/-- The text with its externals edited, or nothing if there is nothing to edit. -/
def edit? (source : String) : Option String :=
  let lines := Text.lines source
  let kept := lines.filter fun line => !isUiElement line
  match wantedPoint? source kept with
  | some point => some (Text.unlines (insertElement kept point))
  | none => if kept.length = lines.length then none else some (Text.unlines kept)

/-! ### The addition -/

/-- The file that lists the externals. -/
def externalsPath : String := ".config/bundler/externals.ts"

/-- The file that lists them in older projects. -/
def olderPath : String := ".config/webpack/webpack.config.ts"

/-- The file that describes the plugin. -/
def pluginPath : String := "src/plugin.json"

/-- The first Grafana that can run a bundled `@grafana/ui`. -/
def minimum : Version := Version.release 10 2 0

/-- The file whose externals are edited. -/
def target? (o : Overlay) : Option String :=
  if o.has externalsPath then some externalsPath
  else if o.has olderPath then some olderPath
  else none

/-- Edits the externals of the bundler. -/
def editExternals (o : Overlay) : Except Failure Overlay :=
  match target? o with
  | none => .ok o
  | some path => match edit? ((o.content? path).getD "") with
    | none => .ok o
    | some text => (o.update path text).mapError .refused

/-- The range does not exclude a Grafana below the minimum. -/
def isBelowMinimum (range : String) : Bool :=
  let bare := String.ofList (range.toList.dropWhile fun c => c = '>' || c = '<' || c = '=')
  match Version.coerce? bare with
  | some v => v < minimum
  | none => true

/-- The members of a plugin's description with the requirement raised, if it has to be
and can be. -/
def raise? (members : Entries String Json.Value) : Option (Entries String Json.Value) := do
  let dependencies ← ((members.get? "dependencies").getD (.object [])).members?
  let range := ((dependencies.get? "grafanaDependency").bind Json.Value.string?).getD ">=9.0.0"
  if isBelowMinimum range then
    some <| members.put "dependencies" <| .object <|
      dependencies.put "grafanaDependency" (.string (">=" ++ minimum.text))
  else none

/-- Has the plugin ask for the first Grafana that can run it. -/
def raiseRequirement (o : Overlay) : Except Failure Overlay :=
  if !o.has pluginPath then .ok o
  else do
    let plugin ← o.readDocument pluginPath
    match plugin.members?.bind raise? with
    | none => .ok o
    | some members => o.writeDocument pluginPath (.object members)

/-- Edits the externals and raises the requirement. -/
def run (o : Overlay) : Except Failure Overlay := do
  let o ← editExternals o
  raiseRequirement o

/-- The codemod. -/
def codemod : Codemod := .ofEdit "bundle-grafana-ui" none fun o _ => run o

end Upkeep.BundleGrafanaUi
