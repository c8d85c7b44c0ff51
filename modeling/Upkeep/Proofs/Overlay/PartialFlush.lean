/-
Carrying out up to the first refusal.

Changes are carried out one after the other, so what became of a project is always what
some of them in front make of it: all of them, or those before the one that was refused.
The refused change itself leaves every path as it was.  This holds over any store, for any
changes, two of one path included, and whatever is denied.
-/
import Upkeep.Overlay.Flush
import Upkeep.Proofs.Project

namespace Upkeep

/-- What is held at each path once the changes are carried out in turn. -/
def ChangeSet.effect (changes : ChangeSet) (held : ProjectPath → Option Content) :
    ProjectPath → Option Content :=
  changes.foldl (fun held change q =>
    if change.1 = q then change.2.content?.map .text else held q) held

theorem ChangeSet.effect_append (xs ys : ChangeSet) (held : ProjectPath → Option Content) :
    ChangeSet.effect (xs ++ ys) held = ChangeSet.effect ys (ChangeSet.effect xs held) :=
  List.foldl_append

/-- Where no path has two changes each has the effect of its own. -/
theorem ChangeSet.effect_of_distinct {changes : ChangeSet} (h : changes.Distinct)
    (held : ProjectPath → Option Content) (q : ProjectPath) :
    changes.effect held q =
      match changes.get? q with
      | some r => r.content?.map .text
      | none => held q := by
  induction changes generalizing held with
  | nil => rfl
  | cons change changes ih =>
      obtain ⟨path, r⟩ := change
      obtain ⟨hpath, hrest⟩ : path ∉ Entries.keys changes ∧ Entries.Distinct changes :=
        List.nodup_cons.mp h
      show ChangeSet.effect changes _ q = _
      rw [ih hrest, Entries.get?]
      by_cases hq : path = q
      · subst hq
        rw [Entries.get?_eq_none_iff.mpr hpath, if_pos rfl]
        exact if_pos rfl
      · simp only [if_neg hq]

namespace Project

/-- The second project is the first after the changes in turn: it has the same base and
holds at each path what they make of it. -/
structure Undergoes (p : Project) (changes : ChangeSet) (p' : Project) : Prop where
  base : p'.base = p.base
  held : p'.held = changes.effect p.held

/-- The second project is the first, at its own base, after changes in turn on a project over its
store. -/
def Sees (p on : Project) (changes : ChangeSet) (p' : Project) : Prop :=
  ∃ flushed, on.Undergoes changes flushed ∧ p' = p.atop flushed.store

variable {p p' p'' on : Project} {changes later : ChangeSet}

/-- Changes on a project at the same base are changes of this one. -/
theorem Sees.undergoes (h : p.Sees on changes p') (hbase : on.base = p.base) :
    on.Undergoes changes p' := by
  obtain ⟨flushed, hflushed, rfl⟩ := h
  rwa [atop_store (hflushed.base.trans hbase)]

theorem Undergoes.refl (p : Project) : p.Undergoes [] p := ⟨rfl, rfl⟩

theorem Undergoes.trans (h : p.Undergoes changes p') (h' : p'.Undergoes later p'') :
    p.Undergoes (changes ++ later) p'' := by
  refine ⟨h'.base.trans h.base, ?_⟩
  rw [ChangeSet.effect_append, ← h.held, h'.held]

theorem apply_done {q : ProjectPath} {r : Pending} (h : p.apply q r = (p', none)) :
    p.Undergoes [(q, r)] p' := by
  have hwrite : ∀ content, p.write q content = (p', none) →
      p'.base = p.base ∧ p'.held = fun x => if q = x then some (.text content) else p.held x := by
    intro content hw
    obtain ⟨hbase, hheld⟩ := held_write hw
    exact ⟨hbase, funext hheld⟩
  cases r with
  | add content => exact ⟨(hwrite content h).1, (hwrite content h).2⟩
  | update content => exact ⟨(hwrite content h).1, (hwrite content h).2⟩
  | delete =>
      obtain ⟨hbase, hheld⟩ := held_remove h
      exact ⟨hbase, funext hheld⟩

theorem apply_refused {q : ProjectPath} {r : Pending} {cause : StoreError}
    (h : p.apply q r = (p', some cause)) : p.Undergoes [] p' := by
  have hwrite : ∀ content, p.write q content = (p', some cause) → p.Undergoes [] p' := by
    intro content hw
    obtain ⟨hbase, hheld⟩ := held_write_refused hw
    exact ⟨hbase, funext hheld⟩
  cases r with
  | add content => exact hwrite content h
  | update content => exact hwrite content h
  | delete =>
      rw [held_remove_refused h]
      exact .refl p

/-- What each change keeps, be it carried out or refused, all of them keep. -/
theorem applyAll_keeps {P : Project → Prop}
    (hstep : ∀ p q r, (q, r) ∈ changes → P p → P (p.apply q r).1) (hp : P p) :
    P (p.applyAll changes).1 := by
  induction changes generalizing p with
  | nil => exact hp
  | cons change changes ih =>
      obtain ⟨q, r⟩ := change
      have hfirst := hstep p q r List.mem_cons_self hp
      unfold applyAll
      rcases happly : p.apply q r with ⟨p₁, _ | cause⟩
      · rw [happly] at hfirst
        exact ih (fun p q r hmem => hstep p q r (List.mem_cons_of_mem _ hmem)) hfirst
      · rwa [happly] at hfirst

/-- Carrying a change out does not move the project. -/
theorem base_apply (p : Project) (q : ProjectPath) (r : Pending) :
    (p.apply q r).1.base = p.base := by
  cases r <;> rfl

theorem base_applyAll (p : Project) (changes : ChangeSet) :
    (p.applyAll changes).1.base = p.base :=
  applyAll_keeps (fun p' q r _ hbase => (p'.base_apply q r).trans hbase) rfl

/-- Where nothing is refused all changes are carried out. -/
theorem applyAll_done (h : p.applyAll changes = (p', none)) : p.Undergoes changes p' := by
  induction changes generalizing p with
  | nil =>
      cases h
      exact .refl _
  | cons change changes ih =>
      obtain ⟨q, r⟩ := change
      unfold applyAll at h
      rcases happly : p.apply q r with ⟨p₁, _ | cause⟩
      · rw [happly] at h
        exact (apply_done happly).trans (ih h)
      · rw [happly] at h
        simp at h

/-- **Where a change is refused, those before it are carried out and nothing else is.** -/
theorem applyAll_refused {e : FlushError} (h : p.applyAll changes = (p', some e)) :
    ∃ done r rest, changes = done ++ (e.path, r) :: rest ∧ p.Undergoes done p' := by
  induction changes generalizing p with
  | nil => simp [applyAll] at h
  | cons change changes ih =>
      obtain ⟨q, r⟩ := change
      unfold applyAll at h
      rcases happly : p.apply q r with ⟨p₁, _ | cause⟩
      · rw [happly] at h
        obtain ⟨done, r', rest, rfl, hdone⟩ := ih h
        exact ⟨(q, r) :: done, r', rest, rfl, (apply_done happly).trans hdone⟩
      · rw [happly] at h
        cases h
        exact ⟨[], r, changes, rfl, apply_refused happly⟩

end Project

end Upkeep
