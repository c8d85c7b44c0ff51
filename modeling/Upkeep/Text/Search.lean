/-
Looking for a text inside another.
-/

namespace Upkeep.Text

/-- The needle stands somewhere in the text. -/
def contains (needle : List Char) : List Char → Bool
  | [] => needle.isEmpty
  | c :: cs => needle.isPrefixOf (c :: cs) || contains needle cs

/-- The needle stands somewhere in the string. -/
def containsText (s needle : String) : Bool := contains needle.toList s.toList

theorem contains_iff {needle cs : List Char} : contains needle cs = true ↔ needle <:+: cs := by
  induction cs with
  | nil => simp [contains]
  | cons c cs ih => simp [contains, ih, List.infix_cons_iff]

end Upkeep.Text
