/-
Colours of a terminal.
-/

namespace Upkeep.Console

/-- The ways in which a text is set off. -/
inductive Paint where
  | bold
  | dimmed
  | red
  | green
  | yellow
  deriving DecidableEq, Repr

/-- The number by which a terminal knows it. -/
def Paint.code : Paint → String
  | .bold => "1"
  | .dimmed => "2"
  | .red => "31"
  | .green => "32"
  | .yellow => "33"

/-- The text set off, if colours are wanted. -/
def Paint.apply (p : Paint) (color : Bool) (text : String) : String :=
  if color then "\x1b[" ++ p.code ++ "m" ++ text ++ "\x1b[0m" else text

end Upkeep.Console
