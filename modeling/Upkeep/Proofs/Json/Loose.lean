/-
A loose reader takes whatever was printed.

No document is too deep for it and no number out of range, so what it is given back differs
from the document in its numbers alone: a double may be read as its neighbour.  Keys, texts
and truth values are what they were, in the order in which they stood.  A strict reader takes
the same, where the document keeps to its levels and its numbers are in range when they are
read again.
-/
import Upkeep.Proofs.Json.Float
import Upkeep.Proofs.Json.Printed
import Upkeep.Proofs.Json.Shape

namespace Upkeep.Json

/-- What a loose reader takes the printed number for: the value of its literal, if that has
one. -/
def Number.reread (n : Number) : Option Number :=
  match Reader.tree false 1 0 n.text with
  | .ok (.number x, _) => x
  | _ => none

theorem Number.text_ne_nil (n : Number) : n.text ≠ [] := by
  obtain ⟨negative, body, l, htext, hscanned⟩ := n.scanned
  obtain ⟨c, r, rfl, -⟩ := hscanned.head
  rw [htext]
  split <;> simp

/-- A printed number is read as the value of its literal. -/
theorem Number.reread_eq {n : Number} {negative : Bool} {body : List Char} {l : Literal}
    (htext : n.text = if negative then '-' :: body else body)
    (hscanned : Literal.Scanned negative body l) : n.reread = l.number? := by
  have halone : Reader.tree false (0 + 1) 0 ((if negative then '-' :: body else body) ++ []) =
      .ok (.number l.number?, []) :=
    Reader.tree_literal (fun _ => hscanned.head) hscanned.scan (by simp) Literal.ends_nil
  rw [List.append_nil, ← htext] at halone
  unfold Number.reread
  rw [halone]

theorem Reader.tree_reread {strict : Bool} (fuel room : Nat) (n : Number) {rest : List Char}
    (hvalue : strict = true → n.reread.isSome = true) (hrest : Literal.Ends rest) :
    tree strict (fuel + 1) room (n.text ++ rest) = .ok (.number n.reread, rest) := by
  obtain ⟨negative, body, l, htext, hscanned⟩ := n.scanned
  have hread := Number.reread_eq htext hscanned
  rw [htext, hread]
  exact tree_literal (fun _ => hscanned.head) hscanned.scan (hread ▸ hvalue) hrest

namespace Value

theorem sizeOf_member_lt {members : List (String × Value)} {m : String × Value}
    (h : m ∈ members) : sizeOf m.2 < sizeOf (object members) := by
  obtain ⟨k, v⟩ := m
  have hmember := List.sizeOf_lt_of_mem h
  rw [Prod.mk.sizeOf_spec] at hmember
  rw [object.sizeOf_spec]
  show sizeOf v < 1 + sizeOf members
  omega

/-- What a loose reader takes the printed document for. -/
def reread : Value → Tree
  | .null => .null
  | .bool b => .bool b
  | .number n => .number n.reread
  | .string s => .string (some s)
  | .array items => .array (items.map reread)
  | .object members => .object (members.map fun m => (some m.1, m.2.reread))
decreasing_by
  · decreasing_tactic
  · exact sizeOf_member_lt (by assumption)

variable {style : Style} {strict : Bool} {room : Nat} {v : Value}

/-- A reader takes what was printed; a strict one does if no part lies too deep and every
number has a value when it is read. -/
theorem printsAs_reread_of_shaped (hstyle : style.Blank)
    (h : strict = true → v.Shaped (fun n => n.reread.isSome = true) room) :
    PrintsAs style strict room v v.reread := by
  fun_induction reread v generalizing room with
  | case1 => exact .null
  | case2 b => exact .bool b
  | case3 n =>
      intro depth fuel rest hfuel hrest
      have hlength : 0 < n.text.length := List.length_pos_of_ne_nil n.text_ne_nil
      obtain ⟨fuel, rfl⟩ : ∃ n, fuel = n + 1 := ⟨fuel - 1, by simp only [render] at hfuel; omega⟩
      refine Reader.tree_reread fuel room n (fun hstrict => ?_) hrest
      cases h hstrict with
      | number hn => exact hn
  | case4 s => exact .string s
  | case5 items ih =>
      refine .array hstyle ?_ fun v hv => ih v hv fun hstrict => ?_
      · rintro ⟨hstrict, rfl⟩
        obtain ⟨n, hn, -⟩ := (h hstrict).of_array
        cases hn
      · obtain ⟨n, rfl, hitems⟩ := (h hstrict).of_array
        exact hitems v hv
  | case6 members ih =>
      refine .object hstyle ?_ fun m hm => ih m hm fun hstrict => ?_
      · rintro ⟨hstrict, rfl⟩
        obtain ⟨n, hn, -⟩ := (h hstrict).of_object
        cases hn
      · obtain ⟨n, rfl, -, hmembers⟩ := (h hstrict).of_object
        exact hmembers m hm

/-- **A loose reader takes whatever was printed**, however deep and with whatever numbers. -/
theorem printsAs_reread (hstyle : style.Blank) (v : Value) (room : Nat) :
    PrintsAs style false room v v.reread :=
  printsAs_reread_of_shaped hstyle (by simp)

end Value

/-- The printed text of an object, with blanks behind it, holds its members in order. -/
theorem readLoose_pretty (members : List (String × Value)) {gap : String}
    (hgap : Reader.Blank gap.toList) :
    readLoose ((Value.object members).pretty ++ gap) =
      some (.object (members.map fun m => (some m.1, m.2.reread))) := by
  have hprinted := (Value.printsAs_reread Style.blank_pretty (.object members)
    Reader.maxDepth).document hgap
  unfold readLoose Value.pretty
  rw [String.toList_append, String.toList_ofList, hprinted, Value.reread]
  rfl

end Upkeep.Json
