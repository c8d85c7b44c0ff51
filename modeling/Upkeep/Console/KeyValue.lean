/-
Options given on a command line as `KEY=VALUE`.
-/
import Upkeep.Text.Blank
import Upkeep.Text.Parts

namespace Upkeep.Console

/-- An option as it is given: a key that is not blank, and what follows the first `=`. -/
def parseKeyValue (raw : String) : Except String (String × String) :=
  let (key, value) := Text.cut '=' raw.toList
  match Text.trim key, value with
  | c :: cs, some value => .ok (String.ofList (c :: cs), String.ofList value)
  | _, _ => .error ("expected KEY=VALUE, got \x60" ++ raw ++ "\x60")

end Upkeep.Console
