/-
Documents but for their numbers.

The outline of a document leaves its numbers open.  A document that was read and is written
again, with texts put in or without, is read another time: its numbers may have moved to a
neighbour, but they are doubles still, so the reading succeeds and the outline is the same.
Whatever goes by keys and texts alone finds in it what it found before.
-/
import Upkeep.Proofs.Json.Edit
import Upkeep.Proofs.Json.Loose
import Upkeep.Proofs.Json.Rereading

namespace Upkeep.Json

namespace Value

/-- The document with its numbers left open. -/
def outline : Value → Value
  | .null => .null
  | .bool b => .bool b
  | .number _ => .number (.integer 0 (by decide))
  | .string s => .string s
  | .array items => .array (items.map outline)
  | .object members => .object (members.map fun m => (m.1, m.2.outline))
decreasing_by
  · decreasing_tactic
  · exact sizeOf_member_lt (by assumption)

variable {v w : Value}

theorem outline_array (items : List Value) :
    (array items).outline = .array (items.map outline) := by
  rw [outline]

theorem outline_object (members : Entries String Value) :
    (object members).outline = .object (members.map fun m => (m.1, m.2.outline)) := by
  rw [outline]

theorem string?_outline (v : Value) : v.outline.string? = v.string? := by
  cases v <;> rw [outline] <;> rfl

theorem members?_outline (v : Value) :
    v.outline.members? = v.members?.map fun ms => ms.map fun m => (m.1, m.2.outline) := by
  cases v <;> rw [outline] <;> rfl

theorem member?_outline (v : Value) (k : String) :
    v.outline.member? k = (v.member? k).map outline := by
  unfold member?
  rw [members?_outline]
  cases v.members? with
  | none => rfl
  | some members => exact Entries.get?_map outline members k

/-- Documents of one outline have the same members, each of one outline in both. -/
theorem member?_congr (h : v.outline = w.outline) (k : String) :
    (v.member? k).map outline = (w.member? k).map outline := by
  rw [← member?_outline, h, member?_outline]

/-! ### Reading again -/

theorem exists_itemValues? {items : List Value}
    (h : ∀ v ∈ items, ∃ w, v.reread.value? = some w ∧ w.outline = v.outline) :
    ∃ ws, Tree.itemValues? (items.map reread) = some ws ∧ ws.map outline = items.map outline := by
  induction items with
  | nil => exact ⟨[], rfl, rfl⟩
  | cons v items ih =>
      obtain ⟨w, hw, houtline⟩ := h v List.mem_cons_self
      obtain ⟨ws, hws, houtlines⟩ := ih fun u hu => h u (List.mem_cons_of_mem _ hu)
      refine ⟨w :: ws, ?_, by rw [List.map_cons, List.map_cons, houtline, houtlines]⟩
      rw [List.map_cons]
      unfold Tree.itemValues?
      rw [hw, hws]

theorem exists_memberValues? {members : Entries String Value}
    (h : ∀ m ∈ members, ∃ w, m.2.reread.value? = some w ∧ w.outline = m.2.outline) :
    ∃ ws, Tree.memberValues? (members.map fun m => (some m.1, m.2.reread)) = some ws ∧
      ws.map (fun m => (m.1, m.2.outline)) = members.map fun m => (m.1, m.2.outline) := by
  induction members with
  | nil => exact ⟨[], rfl, rfl⟩
  | cons m members ih =>
      obtain ⟨w, hw, houtline⟩ := h m List.mem_cons_self
      obtain ⟨ws, hws, houtlines⟩ := ih fun n hn => h n (List.mem_cons_of_mem _ hn)
      refine ⟨(m.1, w) :: ws, ?_, by rw [List.map_cons, List.map_cons, houtline, houtlines]⟩
      rw [List.map_cons]
      unfold Tree.memberValues?
      rw [hw, hws]

/-- What a printed document is taken for has a value, of the same outline. -/
theorem Shaped.exists_reread {room : Nat} (h : v.Shaped (fun n => n.reread.isSome = true) room) :
    ∃ w, v.reread.value? = some w ∧ w.outline = v.outline := by
  induction h with
  | null => exact ⟨.null, by rw [reread]; rfl, rfl⟩
  | bool b => exact ⟨.bool b, by rw [reread]; rfl, rfl⟩
  | @number room n hn =>
      obtain ⟨m, hm⟩ := Option.isSome_iff_exists.mp hn
      exact ⟨.number m, by rw [reread, hm]; rfl, by rw [outline, outline]⟩
  | string s => exact ⟨.string s, by rw [reread]; rfl, rfl⟩
  | array h ih =>
      obtain ⟨ws, hws, houtlines⟩ := exists_itemValues? ih
      refine ⟨.array ws, ?_, by rw [outline_array, outline_array, houtlines]⟩
      rw [reread]
      unfold Tree.value?
      rw [hws]
      rfl
  | @object room members distinct h ih =>
      obtain ⟨ws, hws, houtlines⟩ := exists_memberValues? ih
      refine ⟨.object ws, ?_, by rw [outline_object, outline_object, houtlines]⟩
      have hkeys : Entries.keys ws = Entries.keys members := by
        simpa [Entries.keys, Function.comp_def] using congrArg (List.map Prod.fst) houtlines
      have hdistinct : Entries.Distinct ws := by
        unfold Entries.Distinct at distinct ⊢
        rwa [hkeys]
      rw [reread]
      unfold Tree.value?
      rw [hws, Option.map_some, Entries.putAll_nil_of_distinct hdistinct]

/-- **What is printed for a document that keeps to the levels can be read**, and is that
document but for its numbers. -/
theorem Shaped.exists_read_pretty (h : v.Shaped Number.InRange Reader.maxDepth) {gap : String}
    (hgap : Reader.Blank gap.toList) :
    ∃ w, read (v.pretty ++ gap) = .ok w ∧ w.outline = v.outline := by
  have hreread := h.imp fun n _ hn => hn.reread_isSome
  obtain ⟨w, hw, houtline⟩ := hreread.exists_reread
  refine ⟨w, read_ok_iff.mpr ⟨v.reread, ?_, hw⟩, houtline⟩
  unfold pretty
  rw [String.toList_append, String.toList_ofList]
  exact (printsAs_reread_of_shaped Style.blank_pretty fun _ => hreread).document hgap

end Value

/-- A document that was read keeps to the levels, with numbers in range. -/
theorem inRange_of_read {text : String} {v : Value} (h : read text = .ok v) :
    v.Shaped Number.InRange Reader.maxDepth :=
  (shaped_of_read h).imp fun _ _ ⟨_, hl⟩ => Literal.inRange_of_number? hl

end Upkeep.Json
