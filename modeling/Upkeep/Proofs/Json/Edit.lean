/-
Changes of a member of a document.

Only the member with the key changes, and a document keeps its shape where the member does.
Changing a member twice to what one change makes of it is changing it once.
-/
import Upkeep.Proofs.Json.RoundTrip

namespace Upkeep.Json.Value

variable {room : Nat} {members : Entries String Value} {items : List Value} {v w : Value}
  {k : String}

/-! ### Readable parts -/

theorem Readable.of_object (h : Readable room (.object members)) :
    ∃ n, room = n + 1 ∧ members.Distinct ∧ ∀ m ∈ members, Readable n m.2 := by
  cases h with
  | object distinct h => exact ⟨_, rfl, distinct, h⟩

theorem Readable.of_array (h : Readable room (.array items)) :
    ∃ n, room = n + 1 ∧ ∀ v ∈ items, Readable n v := by
  cases h with
  | array h => exact ⟨_, rfl, h⟩

/-! ### Changing a member -/

theorem eq_object (h : v.members? = some members) : v = .object members := by
  cases v with
  | object ms => simpa [members?] using h
  | _ => simp [members?] at h

theorem updateMember_object {f : Value → Value} (h : members.get? k = some v) :
    (object members).updateMember k f = .object (members.put k (f v)) := by
  unfold updateMember
  simp only [h]

theorem updateMember_none {f : Value → Value} (h : members.get? k = none) :
    (object members).updateMember k f = .object members := by
  unfold updateMember
  simp only [h]

/-- A document that is no object has no member to change. -/
theorem updateMember_other {f : Value → Value} (h : v.members? = none) :
    v.updateMember k f = v := by
  cases v with
  | object members => simp [members?] at h
  | _ => rfl

/-- Only the member with the key changes. -/
theorem member?_updateMember (v : Value) (k l : String) (f : Value → Value) :
    (v.updateMember k f).member? l = if k = l then (v.member? k).map f else v.member? l := by
  cases hv : v.members? with
  | none =>
      rw [updateMember_other hv]
      unfold member?
      rw [hv]
      simp
  | some members =>
      obtain rfl := eq_object hv
      cases hk : members.get? k with
      | none =>
          rw [updateMember_none hk]
          split
          next hkl => simp [member?, members?, ← hkl, hk]
          next => rfl
      | some w =>
          rw [updateMember_object hk]
          show (members.put k (f w)).get? l = _
          rw [Entries.get?_put]
          split
          next => simp [member?, members?, hk]
          next => rfl

/-- A change that does nothing the second time does nothing to the document either. -/
theorem updateMember_twice {f : Value → Value} (hf : ∀ w, f (f w) = f w) (v : Value) :
    (v.updateMember k f).updateMember k f = v.updateMember k f := by
  cases hv : v.members? with
  | none => rw [updateMember_other hv, updateMember_other hv]
  | some members =>
      obtain rfl := eq_object hv
      cases hk : members.get? k with
      | none => rw [updateMember_none hk, updateMember_none hk]
      | some w =>
          rw [updateMember_object hk, updateMember_object (Entries.get?_put_self members k (f w)),
            hf, Entries.put_put]

/-- A change that leaves the member as it is leaves the document as it is. -/
theorem updateMember_self {f : Value → Value} (hf : ∀ w, v.member? k = some w → f w = w) :
    v.updateMember k f = v := by
  cases hv : v.members? with
  | none => exact updateMember_other hv
  | some members =>
      obtain rfl := eq_object hv
      cases hk : members.get? k with
      | none => exact updateMember_none hk
      | some w => rw [updateMember_object hk, hf w (by simpa [member?, members?] using hk),
          Entries.put_of_get? hk]

theorem Shaped.updateMember {P : Number → Prop} (h : Shaped P room v) {f : Value → Value}
    (hf : ∀ n w, Shaped P n w → Shaped P n (f w)) (k : String) :
    Shaped P room (v.updateMember k f) := by
  cases hv : v.members? with
  | none => rwa [updateMember_other hv]
  | some members =>
      obtain rfl := eq_object hv
      obtain ⟨n, rfl, -, -⟩ := h.of_object
      cases hk : members.get? k with
      | none => rwa [updateMember_none hk]
      | some w =>
          rw [updateMember_object hk]
          exact h.put k (hf n w (h.get? hk))

end Upkeep.Json.Value
