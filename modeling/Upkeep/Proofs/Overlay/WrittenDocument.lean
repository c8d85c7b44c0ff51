/-
Documents that survive being written.

A document without doubles is read as it was written, down to the deepest level that a reader
accepts: its integers are of 64 bits and read back, its texts are escaped and its keys keep their
order.  The line feed at the end of the file is the one of before, since the printed text of a
document ends in none of its own; so a second write finds the text that it would write.
-/
import Mathlib.Logic.Function.Iterate
import Upkeep.Proofs.Overlay.Rewritten

namespace Upkeep

namespace Json

/-- The number is no double. -/
def Number.IsInteger : Number → Prop
  | .integer _ _ => True
  | .float _ => False

theorem Number.IsInteger.readsBack {n : Number} (h : n.IsInteger) : n.ReadsBack := by
  cases n with
  | integer i fits => exact readsBack_integer i fits
  | float x => exact h.elim

/-- What is printed for a document does not end in a line feed. -/
theorem Value.getLast?_render_ne (style : Style) (depth : Nat) (v : Value) :
    (v.render style depth).getLast? ≠ some '\n' := by
  have hbehind : ∀ (c : Char) (cs : List Char), c ≠ '\n' → (cs ++ [c]).getLast? ≠ some '\n' := by
    intro c cs hc
    simpa using hc
  cases v with
  | null =>
      rw [render]
      decide
  | bool b => cases b <;> rw [render] <;> decide
  | number n =>
      intro hlast
      exact absurd (Number.mem_text (List.mem_of_getLast? hlast)) (by decide)
  | string s => exact hbehind '"' ('"' :: s.toList.flatMap escapeChar) (by decide)
  | array items =>
      cases items with
      | nil =>
          rw [render]
          decide
      | cons v items =>
          rw [render, ← List.cons_append]
          exact hbehind ']' _ (by decide)
  | object members =>
      cases members with
      | nil =>
          rw [render]
          decide
      | cons m members =>
          obtain ⟨k, v⟩ := m
          rw [render, ← List.cons_append]
          exact hbehind '\x7d' _ (by decide)

end Json

namespace Overlay

open Json (Value)

variable {o o' : Overlay} {path : String} {v : Value}

theorem endsInLineFeed_pretty (v : Value) : endsInLineFeed v.pretty = false := by
  unfold endsInLineFeed Value.pretty
  rw [String.toList_ofList]
  exact decide_eq_false (v.getLast?_render_ne .pretty 0)

theorem endsInLineFeed_append_feed (s : String) : endsInLineFeed (s ++ "\n") = true := by
  unfold endsInLineFeed
  simp

theorem endsInLineFeed_documentText (before : Option String) (v : Value) :
    endsInLineFeed (documentText before v) = before.all endsInLineFeed := by
  unfold documentText
  split
  next h => rw [h, endsInLineFeed_append_feed]
  next h => rw [endsInLineFeed_pretty, Bool.eq_false_of_not_eq_true h]

/-- A document has one text for a file that holds it. -/
theorem documentText_again (before : Option String) (v : Value) :
    documentText (some (documentText before v)) v = documentText before v := by
  show (if endsInLineFeed (documentText before v) = true then _ else _) = documentText before v
  rw [endsInLineFeed_documentText]
  rfl

/-- A document is written to a file that can be read, and to one that is not there. -/
theorem exists_writeDocument_iff :
    (∃ o', o.writeDocument path v = .ok o') ↔ (o.content? path = none → o.has path = false) := by
  cases hcontent : o.content? path with
  | some before =>
      refine ⟨fun _ hnone => ?_, fun _ => exists_writeDocument hcontent v⟩
      cases hnone
  | none =>
      rw [writeDocument_eq, hcontent]
      constructor
      · rintro ⟨o', h⟩ -
        exact (addAt_ok (mapError_ok h)).1
      · intro hlacking
        have hhas : ¬o.hasAt (o.resolve path) = true := Bool.eq_false_iff.mp (hlacking rfl)
        have hadd : o.add path (documentText none v) = .ok _ := if_neg hhas
        exact ⟨_, congrArg (Except.mapError Failure.refused) hadd⟩

/-- What has been written is written again without a change. -/
theorem writeDocument_again (h : o.writeDocument path v = .ok o') :
    o'.writeDocument path v = .ok o' := by
  have htext : o'.content? path = some (documentText (o.content? path) v) := by
    rw [(writeDocument_ok h).content?, if_pos rfl]
  rw [writeDocument_eq, htext]
  simp only
  rw [documentText_again, update_self htext]
  rfl

/-- **A document without doubles survives being written and read**, exactly if it is nested no
deeper than a reader follows.  It is written wherever the file can be read or is not there.  The
file ends in a line feed if it did before, or was not there, and only then; and to write the
document once more changes nothing. -/
theorem writeDocument_survives {room : Nat} (hv : v.Shaped Json.Number.IsInteger room)
    (o : Overlay) (path : String) :
    ((∃ o', o.writeDocument path v = .ok o') ↔ (o.content? path = none → o.has path = false)) ∧
    ∀ o', o.writeDocument path v = .ok o' →
      (o'.readDocument path = .ok v ↔ v.depth ≤ 127) ∧
      (∃ text, o'.content? path = some text ∧ (endsInLineFeed text = true ↔
        ∀ before, o.content? path = some before → endsInLineFeed before = true)) ∧
      o'.writeDocument path v = .ok o' := by
  refine ⟨exists_writeDocument_iff, fun o' h => ⟨⟨fun hread => ?_, fun hdepth => ?_⟩, ?_, ?_⟩⟩
  · exact (shaped_of_readDocument hread).depth_le
  · have hreadable := (hv.of_depth_le hdepth).imp fun n _ hn => hn.readsBack
    exact (holds_writeDocument hreadable.readable h).2.readDocument
  · refine ⟨_, by rw [(writeDocument_ok h).content?, if_pos rfl], ?_⟩
    rw [endsInLineFeed_documentText, Option.all_eq_true]
  · exact writeDocument_again h

/-- Integers at both ends of the 64 bits, texts that need escapes and empty parts, as deep as a
reader follows, in a file that was deleted. -/
theorem writeDocument_survives_nested :
    let o := (empty (.ofTexts [("a.json", "1")])).run [.delete "a.json"]
    let inner : Value := .object [
      ("\u0000\"\\", .number (.integer (-9223372036854775808) (by decide))),
      ("é\n", .array [.number (.integer 18446744073709551615 (by decide)), .array [], .object []]),
      ("", .string "\x1f/\t")]
    let v : Value := (fun w => .array [w])^[124] inner
    v.Shaped Json.Number.IsInteger 127 ∧ o.has "a.json" = false ∧ ∃ o',
      o.writeDocument "a.json" v = .ok o' ∧ o'.readDocument "a.json" = .ok v ∧
        o'.writeDocument "a.json" v = .ok o' := by
  intro o inner v
  have hinner : inner.Shaped Json.Number.IsInteger 3 := by
    refine .object (by decide) ?_
    simp only [List.forall_mem_cons, List.not_mem_nil, false_implies, implies_true, and_true]
    refine ⟨.number trivial, .array ?_, .string _⟩
    simp only [List.forall_mem_cons, List.not_mem_nil, false_implies, implies_true, and_true]
    exact ⟨.number trivial, .array (by simp), .empty⟩
  have hv : ∀ n, ((fun w => Value.array [w])^[n] inner).Shaped Json.Number.IsInteger (n + 3) := by
    intro n
    induction n with
    | zero => exact hinner
    | succ n ih =>
        rw [Function.iterate_succ_apply', Nat.succ_add]
        exact .array (by simpa using ih)
  have hlacking : o.has "a.json" = false := by decide +kernel
  obtain ⟨hwritten, hsurvives⟩ := writeDocument_survives (hv 124) o "a.json"
  obtain ⟨o', hwrite⟩ := hwritten.mpr fun _ => hlacking
  obtain ⟨hread, -, hagain⟩ := hsurvives o' hwrite
  exact ⟨hv 124, hlacking, o', hwrite, hread.mpr (hv 124).depth_le, hagain⟩

end Overlay

end Upkeep
