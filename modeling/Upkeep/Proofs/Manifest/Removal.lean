/-
Packages that are dropped.

Dropping packages twice is dropping them once, so the manifest that packages were removed
from stays as it is when they are removed again.  What the sections hold for other packages
stays, and with it requests for those that were settled.
-/
import Upkeep.Proofs.Manifest.Requests

namespace Upkeep.Manifest

open Declared
open Json (Value)

variable {ps : Packages} {name : String} {names : List String} {manifest : Value} {room : Nat}
  {P : Json.Number → Prop}

theorem drop_of_none (h : declared? ps name = none) : drop ps name = ps := by
  unfold drop
  rw [h]
  rfl

/-- A package that is declared in an entry of its own is gone, and the others are not. -/
theorem get?_drop (ps : Packages) (name other : String) :
    (drop ps name).get? other =
      if name = other ∧ (declared? ps name).isSome then none else ps.get? other := by
  unfold drop
  by_cases h : (declared? ps name).isSome = true
  · rw [if_pos h, Entries.get?_erase]
    simp [h]
  · rw [if_neg h]
    simp [h]

theorem declared?_drop (ps : Packages) (name : String) : declared? (drop ps name) name = none := by
  by_cases h : (declared? ps name).isSome = true
  · unfold declared?
    rw [get?_drop, if_pos ⟨rfl, h⟩]
    rfl
  · have hnone : declared? ps name = none := by simpa using h
    rwa [drop_of_none hnone]

theorem declared?_drop_of_none {other : String} (h : declared? ps name = none) :
    declared? (drop ps other) name = none := by
  by_cases hname : other = name
  · rw [hname]
    exact declared?_drop ps name
  · have hget : (drop ps other).get? name = ps.get? name := by
      rw [get?_drop, if_neg fun hc => hname hc.1]
    rwa [declared?_congr hget]

theorem declared?_dropAll_of_none (h : declared? ps name = none) (names : List String) :
    declared? (dropAll ps names) name = none := by
  induction names generalizing ps with
  | nil => exact h
  | cons other names ih => exact ih (declared?_drop_of_none h)

theorem declared?_dropAll (ps : Packages) (h : name ∈ names) :
    declared? (dropAll ps names) name = none := by
  induction names generalizing ps with
  | nil => simp at h
  | cons other names ih =>
      rcases List.mem_cons.mp h with rfl | h
      · exact declared?_dropAll_of_none (declared?_drop ps name) names
      · exact ih (drop ps other) h

theorem dropAll_of_none (h : ∀ name ∈ names, declared? ps name = none) :
    dropAll ps names = ps := by
  induction names with
  | nil => rfl
  | cons name names ih =>
      show dropAll (drop ps name) names = ps
      rw [drop_of_none (h name (by simp))]
      exact ih fun other hother => h other (by simp [hother])

/-- **Dropping packages twice is dropping them once.** -/
theorem dropAll_dropAll (ps : Packages) (names : List String) :
    dropAll (dropAll ps names) names = dropAll ps names :=
  dropAll_of_none fun _ h => declared?_dropAll ps h

theorem get?_dropAll_of_notMem (h : name ∉ names) (ps : Packages) :
    (dropAll ps names).get? name = ps.get? name := by
  induction names generalizing ps with
  | nil => rfl
  | cons other names ih =>
      obtain ⟨hne, hrest⟩ := not_or.mp fun hc => h (List.mem_cons.mpr hc)
      show (dropAll (drop ps other) names).get? name = ps.get? name
      rw [ih hrest, get?_drop, if_neg fun hc => hne hc.1.symm]

theorem shaped_dropAll (h : Value.Shaped P (room + 1) (.object ps)) (names : List String) :
    Value.Shaped P (room + 1) (.object (dropAll ps names)) := by
  induction names generalizing ps with
  | nil => exact h
  | cons name names ih =>
      refine ih ?_
      unfold drop
      split
      · exact h.erase name
      · exact h

/-! ### In the manifest -/

/-- What dropping makes of a section; what is no object stays. -/
def dropSection (names : List String) : Value → Value
  | .object ps => .object (dropAll ps names)
  | v => v

theorem dropFrom_eq (manifest : Value) (s : Section) (names : List String) :
    dropFrom manifest s names = manifest.updateMember s.key (dropSection names) := rfl

theorem dropSection_twice (names : List String) (v : Value) :
    dropSection names (dropSection names v) = dropSection names v := by
  cases v with
  | object ps =>
      unfold dropSection
      simp only [dropAll_dropAll]
  | _ => rfl

theorem shaped_dropFrom (h : manifest.Shaped P room) (s : Section) (names : List String) :
    (dropFrom manifest s names).Shaped P room := by
  rw [dropFrom_eq]
  refine h.updateMember (fun n v hv => ?_) s.key
  cases v with
  | object ps =>
      obtain ⟨n, rfl, -, -⟩ := hv.of_object
      exact shaped_dropAll hv names
  | _ => exact hv

theorem packages_dropFrom (manifest : Value) (s t : Section) (names : List String) :
    packages (dropFrom manifest s names) t =
      if s = t then dropAll (packages manifest t) names else packages manifest t := by
  have hnil : dropAll [] names = [] := dropAll_of_none fun _ _ => rfl
  have hkey : s.key = t.key ↔ s = t := by cases s <;> cases t <;> decide
  rw [dropFrom_eq]
  unfold packages
  rw [Value.member?_updateMember]
  simp only [hkey]
  split
  next hst =>
    subst hst
    cases manifest.member? s.key with
    | none => exact hnil.symm
    | some v =>
        cases v with
        | object ps => rfl
        | _ => exact hnil.symm
  next => rfl

/-- The manifest without packages of both sections. -/
def removed (manifest : Value) (runtime development : List String) : Value :=
  dropFrom (dropFrom manifest .runtime runtime) .development development

variable {runtime development : List String}

/-- **Removing packages twice is removing them once.** -/
theorem removed_removed (manifest : Value) (runtime development : List String) :
    removed (removed manifest runtime development) runtime development =
      removed manifest runtime development := by
  have hruntime : dropFrom (removed manifest runtime development) .runtime runtime =
      removed manifest runtime development := by
    refine Value.updateMember_self fun v hv => ?_
    unfold removed at hv
    rw [dropFrom_eq, dropFrom_eq, Value.member?_updateMember, if_neg (by decide),
      Value.member?_updateMember, if_pos rfl] at hv
    obtain ⟨w, -, rfl⟩ := Option.map_eq_some_iff.mp hv
    exact dropSection_twice runtime w
  have hdevelopment : dropFrom (removed manifest runtime development) .development development =
      removed manifest runtime development :=
    Value.updateMember_twice (dropSection_twice development) _
  show dropFrom (dropFrom (removed manifest runtime development) .runtime runtime)
    .development development = _
  rw [hruntime, hdevelopment]

/-- A manifest keeps its shape when packages are removed from it. -/
theorem shaped_removed (h : manifest.Shaped P room) (runtime development : List String) :
    (removed manifest runtime development).Shaped P room :=
  shaped_dropFrom (shaped_dropFrom h .runtime runtime) .development development

/-- A package that is not asked for keeps its entries. -/
theorem get?_removed (hruntime : name ∉ runtime) (hdevelopment : name ∉ development)
    (manifest : Value) (s : Section) :
    ((ofManifest (removed manifest runtime development)).part s).get? name =
      ((ofManifest manifest).part s).get? name := by
  rw [part_ofManifest, part_ofManifest]
  unfold removed
  rw [packages_dropFrom, packages_dropFrom]
  cases s with
  | runtime =>
      rw [if_neg (by decide), if_pos rfl]
      exact get?_dropAll_of_notMem hruntime _
  | development =>
      rw [if_pos rfl, if_neg (by decide)]
      exact get?_dropAll_of_notMem hdevelopment _

variable {o o' : Overlay}

theorem alters_removeDependencies (h : removeDependencies o runtime development = .ok o') :
    o.Alters [o.resolve path] o' := by
  obtain ⟨manifest, -, h⟩ := Except.bind_ok h
  simp only at h
  split at h
  · cases h
    exact .refl o _
  · exact Overlay.alters_writeDocument h

/-- Packages that were removed are removed without a change. -/
theorem removeDependencies_of_removed
    (hM : o.Holds path (removed manifest runtime development)) :
    removeDependencies o runtime development = .ok o := by
  unfold removeDependencies
  rw [hM.readDocument]
  simp only [bind, Except.bind]
  exact if_pos (removed_removed manifest runtime development)

/-- **Packages that were removed are removed from the manifest**, and no other file has
changed. -/
theorem removeDependencies_ok (hM : o.Holds path manifest)
    (h : removeDependencies o runtime development = .ok o') :
    o.Touches path o' ∧ o'.Holds path (removed manifest runtime development) := by
  unfold removeDependencies at h
  rw [hM.readDocument] at h
  simp only [bind, Except.bind] at h
  split at h
  next hsame =>
    cases h
    refine ⟨.refl o path, ?_⟩
    rwa [show removed manifest runtime development = manifest from hsame]
  next =>
    exact Overlay.holds_writeDocument (shaped_removed hM.2.shaped runtime development).readable h

end Upkeep.Manifest
