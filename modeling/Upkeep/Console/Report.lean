/-
The report that is printed after each codemod: a rule, the title, and a line for each
change, grouped by kind.
-/
import Upkeep.ChangeSet
import Upkeep.Console.Paint

namespace Upkeep.Console

/-- The colour of a kind of change. -/
def kindPaint : ChangeKind → Paint
  | .add => .green
  | .update => .yellow
  | .delete => .red

/-- The line of a change. -/
def changeLine (color : Bool) (k : ChangeKind) (p : ProjectPath) : String :=
  "  • " ++ (kindPaint k).apply color k.label ++ " " ++ p.text ++ "\n"

/-- The report of a change set. -/
def report (color : Bool) (title description : String) (changes : ChangeSet) : String :=
  let rule := String.ofList (List.replicate 60 '─')
  let head := Paint.dimmed.apply color rule ++ "\n" ++ title ++ " (" ++ description ++ ")\n"
  if changes = [] then head ++ "No changes were made\n"
  else
    head ++ Paint.bold.apply color "Changes:" ++ "\n" ++
      String.join (ChangeKind.all.flatMap fun k => (changes.ofKind k).map (changeLine color k))

end Upkeep.Console
