/-
Documents of a shape.

A document has a shape when no key stands twice in an object, no part lies deeper than the
levels that are allowed, and all its numbers are of a kind.  Putting, erasing and sorting keep
the shape where the parts that are put in have it one level down.  The levels that a document
needs are those of its depth.
-/
import Upkeep.Json.Value
import Upkeep.Proofs.Entries

namespace Upkeep.Json.Value

mutual

/-- The numbers of a document. -/
def numbers : Value → List Number
  | .number n => [n]
  | .array items => itemNumbers items
  | .object members => memberNumbers members
  | _ => []

/-- The numbers of items. -/
def itemNumbers : List Value → List Number
  | [] => []
  | v :: vs => numbers v ++ itemNumbers vs

/-- The numbers of members. -/
def memberNumbers : List (String × Value) → List Number
  | [] => []
  | (_, v) :: ms => numbers v ++ memberNumbers ms

end

theorem numbers_subset_items {items : List Value} {v : Value} (h : v ∈ items) :
    v.numbers ⊆ itemNumbers items := by
  induction items with
  | nil => simp at h
  | cons w items ih =>
      unfold itemNumbers
      rcases List.mem_cons.mp h with rfl | h
      · exact List.subset_append_left _ _
      · exact List.Subset.trans (ih h) (List.subset_append_right _ _)

theorem numbers_subset_members {members : List (String × Value)} {m : String × Value}
    (h : m ∈ members) : m.2.numbers ⊆ memberNumbers members := by
  induction members with
  | nil => simp at h
  | cons m' members ih =>
      obtain ⟨k, w⟩ := m'
      unfold memberNumbers
      rcases List.mem_cons.mp h with rfl | h
      · exact List.subset_append_left _ _
      · exact List.Subset.trans (ih h) (List.subset_append_right _ _)

/-- The document has its numbers of a kind, its keys once in each object, and no part deeper
than so many levels. -/
inductive Shaped (P : Number → Prop) : Nat → Value → Prop
  | null {room : Nat} : Shaped P room .null
  | bool {room : Nat} (b : Bool) : Shaped P room (.bool b)
  | number {room : Nat} {n : Number} (h : P n) : Shaped P room (.number n)
  | string {room : Nat} (s : String) : Shaped P room (.string s)
  | array {room : Nat} {items : List Value} (h : ∀ v ∈ items, Shaped P room v) :
      Shaped P (room + 1) (.array items)
  | object {room : Nat} {members : List (String × Value)}
      (distinct : Entries.Distinct members) (h : ∀ m ∈ members, Shaped P room m.2) :
      Shaped P (room + 1) (.object members)

namespace Shaped

variable {P Q : Number → Prop} {room : Nat} {members members' : Entries String Value}
  {items : List Value} {v : Value} {k : String}

/-- Only the numbers that stand in the document count. -/
theorem imp (h : Shaped P room v) (himp : ∀ n ∈ v.numbers, P n → Q n) : Shaped Q room v := by
  induction h with
  | null => exact .null
  | bool b => exact .bool b
  | number h => exact .number (himp _ (by simp [numbers]) h)
  | string s => exact .string s
  | array h ih =>
      exact .array fun v hv => ih v hv fun n hn => himp n (numbers_subset_items hv hn)
  | object distinct h ih =>
      exact .object distinct fun m hm => ih m hm fun n hn => himp n (numbers_subset_members hm hn)

theorem of_object (h : Shaped P room (.object members)) :
    ∃ n, room = n + 1 ∧ members.Distinct ∧ ∀ m ∈ members, Shaped P n m.2 := by
  cases h with
  | object distinct h => exact ⟨_, rfl, distinct, h⟩

theorem of_array (h : Shaped P room (.array items)) :
    ∃ n, room = n + 1 ∧ ∀ v ∈ items, Shaped P n v := by
  cases h with
  | array h => exact ⟨_, rfl, h⟩

theorem empty : Shaped P (room + 1) (.object []) := .object Entries.distinct_nil (by simp)

theorem get? (h : Shaped P (room + 1) (.object members)) (hk : members.get? k = some v) :
    Shaped P room v := by
  obtain ⟨n, hn, -, hmembers⟩ := h.of_object
  cases hn
  exact hmembers (k, v) (Entries.mem_of_get? hk)

theorem put (h : Shaped P (room + 1) (.object members)) (k : String) (hv : Shaped P room v) :
    Shaped P (room + 1) (.object (members.put k v)) := by
  obtain ⟨n, hn, distinct, hmembers⟩ := h.of_object
  cases hn
  refine .object (distinct.put k v) fun m hm => ?_
  rcases Entries.mem_put hm with rfl | hm
  · exact hv
  · exact hmembers m hm

theorem erase (h : Shaped P (room + 1) (.object members)) (k : String) :
    Shaped P (room + 1) (.object (members.erase k)) := by
  obtain ⟨n, hn, distinct, hmembers⟩ := h.of_object
  cases hn
  exact .object (distinct.erase k) fun m hm => hmembers m (Entries.mem_erase hm)

/-- The members may stand in another order. -/
theorem perm (h : Shaped P (room + 1) (.object members)) (hperm : members'.Perm members) :
    Shaped P (room + 1) (.object members') := by
  obtain ⟨n, hn, distinct, hmembers⟩ := h.of_object
  cases hn
  exact .object ((hperm.map Prod.fst).nodup_iff.mpr distinct) fun m hm =>
    hmembers m (hperm.mem_iff.mp hm)

end Shaped

/-! ### Depth -/

mutual

/-- How many arrays and objects of a document stand in each other at most. -/
def depth : Value → Nat
  | .array items => itemDepth items + 1
  | .object members => memberDepth members + 1
  | _ => 0

/-- The greatest depth among items. -/
def itemDepth : List Value → Nat
  | [] => 0
  | v :: vs => max (depth v) (itemDepth vs)

/-- The greatest depth among members. -/
def memberDepth : List (String × Value) → Nat
  | [] => 0
  | (_, v) :: ms => max (depth v) (memberDepth ms)

end

theorem itemDepth_le_iff {items : List Value} {n : Nat} :
    itemDepth items ≤ n ↔ ∀ v ∈ items, v.depth ≤ n := by
  induction items with
  | nil => simp [itemDepth]
  | cons v items ih => rw [itemDepth, Nat.max_le, ih, List.forall_mem_cons]

theorem memberDepth_le_iff {members : List (String × Value)} {n : Nat} :
    memberDepth members ≤ n ↔ ∀ m ∈ members, m.2.depth ≤ n := by
  induction members with
  | nil => simp [memberDepth]
  | cons m members ih => rw [memberDepth, Nat.max_le, ih, List.forall_mem_cons]

namespace Shaped

variable {P : Number → Prop} {room n : Nat} {v : Value}

theorem depth_le (h : Shaped P room v) : v.depth ≤ room := by
  induction h with
  | array h ih => exact Nat.succ_le_succ (itemDepth_le_iff.mpr ih)
  | object distinct h ih => exact Nat.succ_le_succ (memberDepth_le_iff.mpr ih)
  | _ => exact Nat.zero_le _

/-- A document needs no more levels than it has. -/
theorem of_depth_le (h : Shaped P room v) (hn : v.depth ≤ n) : Shaped P n v := by
  induction h generalizing n with
  | null => exact .null
  | bool b => exact .bool b
  | number h => exact .number h
  | string s => exact .string s
  | array h ih =>
      obtain ⟨m, rfl⟩ : ∃ m, n = m + 1 := ⟨n - 1, by rw [depth] at hn; omega⟩
      have hitems := itemDepth_le_iff.mp (Nat.le_of_succ_le_succ hn)
      exact .array fun w hw => ih w hw (hitems w hw)
  | object distinct h ih =>
      obtain ⟨m, rfl⟩ : ∃ m, n = m + 1 := ⟨n - 1, by rw [depth] at hn; omega⟩
      have hmembers := memberDepth_le_iff.mp (Nat.le_of_succ_le_succ hn)
      exact .object distinct fun w hw => ih w hw (hmembers w hw)

end Shaped

end Upkeep.Json.Value
