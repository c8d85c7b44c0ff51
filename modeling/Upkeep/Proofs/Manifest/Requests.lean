/-
Requests that are settled.

A request is settled when its package is declared with a range that it does not supersede.
Answering a settled request changes nothing, an answered request is settled, and answering
requests for other packages leaves it so: hence the manifest that requests have been
answered in stays as it is when they come again.

All of this depends on the sections only through what they hold for a package, and not on
the order of the entries, which is another one after the manifest has been written.
-/
import Upkeep.Manifest
import Upkeep.Proofs.Overlay.Document
import Upkeep.Proofs.Overlay.Frame

namespace Upkeep.Manifest

open Json (Value)

namespace Declared

variable {d d' : Declared} {s t : Section} {name range : String} {r : Request}

/-- The entries of one section. -/
def part (d : Declared) : Section → Packages
  | .runtime => d.runtime
  | .development => d.development

theorem part_ofManifest (manifest : Value) (s : Section) :
    (ofManifest manifest).part s = packages manifest s := by
  cases s <;> rfl

theorem part_declare (d : Declared) (s t : Section) (name range : String) :
    (d.declare s name range).part t =
      if s = t then (d.part t).put name (.string range) else d.part t := by
  cases s <;> cases t <;> rfl

/-- Declaring a package leaves the entries of others alone. -/
theorem get?_declare_of_ne {other : String} (h : name ≠ other) :
    ((d.declare s name range).part t).get? other = (d.part t).get? other := by
  rw [part_declare]
  split
  · exact Entries.get?_put_of_ne _ _ h
  · rfl

theorem find?_eq (d : Declared) (name : String) :
    d.find? name = match declared? (d.part .runtime) name with
      | some range => some (.runtime, range)
      | none => (declared? (d.part .development) name).map fun range => (.development, range) :=
  rfl

theorem declared?_congr {ps qs : Packages} (h : ps.get? name = qs.get? name) :
    declared? ps name = declared? qs name := by
  unfold declared?
  rw [h]

theorem find?_congr (h : ∀ s, declared? (d'.part s) name = declared? (d.part s) name) :
    d'.find? name = d.find? name := by
  rw [find?_eq, find?_eq, h .runtime, h .development]

theorem declared?_put (ps : Packages) (name : String) (hrange : range ≠ "") :
    declared? (ps.put name (.string range)) name = some range := by
  unfold declared?
  rw [Entries.get?_put_self]
  simp [Value.string?, hrange]

/-- A package is found where it was declared, unless the first section hides it. -/
theorem find?_declare (hrange : range ≠ "")
    (h : s = .runtime ∨ declared? (d.part .runtime) name = none) :
    (d.declare s name range).find? name = some (s, range) := by
  rw [find?_eq, part_declare, part_declare]
  cases s with
  | runtime => rw [if_pos rfl, declared?_put _ _ hrange]
  | development =>
      have hnone : declared? (d.part .runtime) name = none := by
        rcases h with h | h
        · exact absurd h (by decide)
        · exact h
      rw [if_neg (by decide), if_pos rfl, hnone, declared?_put _ _ hrange]
      rfl

/-- The package is declared, with a range that the request does not supersede. -/
def Settled (d : Declared) (r : Request) : Prop :=
  ∃ s range, d.find? r.name = some (s, range) ∧ Version.supersedes r.range range false = false

/-- **Answering a settled request changes nothing.** -/
theorem Settled.request (h : Settled d r) : d.request r = d := by
  obtain ⟨s, range, hfind, hsupersedes⟩ := h
  unfold Declared.request
  rw [hfind]
  simp only
  rw [if_neg (by simp [hsupersedes])]

theorem Settled.congr (h : Settled d r)
    (hsame : ∀ s, declared? (d'.part s) r.name = declared? (d.part s) r.name) : Settled d' r := by
  obtain ⟨s, range, hfind, hsupersedes⟩ := h
  exact ⟨s, range, (find?_congr hsame).trans hfind, hsupersedes⟩

/-- A request that can be settled: its range says something and does not supersede itself. -/
structure Sound (r : Request) : Prop where
  nonempty : r.range ≠ ""
  irrefl : Version.supersedes r.range r.range false = false

/-- What answering a request does: nothing, or the package is declared with its range, in
the section in which it was found or, if it was not, in the one that it was asked for. -/
theorem request_cases (d : Declared) (r : Request) :
    (Settled d r ∧ d.request r = d) ∨
      ∃ s, (s = .runtime ∨ declared? (d.part .runtime) r.name = none) ∧
        d.request r = d.declare s r.name r.range := by
  cases hfind : d.find? r.name with
  | none =>
      refine .inr ⟨r.target, .inr ?_, ?_⟩
      · rw [find?_eq] at hfind
        split at hfind
        · simp at hfind
        next hnone => exact hnone
      · unfold Declared.request
        rw [hfind]
  | some found =>
      obtain ⟨s, range⟩ := found
      by_cases hsupersedes : Version.supersedes r.range range false = true
      · refine .inr ⟨s, ?_, ?_⟩
        · rw [find?_eq] at hfind
          split at hfind
          · cases hfind
            exact .inl rfl
          next hnone => exact .inr hnone
        · unfold Declared.request
          rw [hfind]
          simp only
          rw [if_pos hsupersedes]
      · have hsettled : Settled d r := ⟨s, range, hfind, by simpa using hsupersedes⟩
        exact .inl ⟨hsettled, hsettled.request⟩

/-- **An answered request is settled.** -/
theorem settled_request (d : Declared) (h : Sound r) : Settled (d.request r) r := by
  rcases request_cases d r with ⟨hsettled, hsame⟩ | ⟨s, hs, hdeclare⟩
  · rwa [hsame]
  · rw [hdeclare]
    exact ⟨s, r.range, find?_declare h.nonempty hs, h.irrefl⟩

theorem get?_request_of_ne {name : String} (h : r.name ≠ name) (s : Section) :
    ((d.request r).part s).get? name = (d.part s).get? name := by
  rcases request_cases d r with ⟨-, hsame⟩ | ⟨t, -, hdeclare⟩
  · rw [hsame]
  · rw [hdeclare, get?_declare_of_ne h]

/-! ### Requests in order -/

theorem get?_requestAll {name : String} {rs : List Request} (h : name ∉ rs.map Request.name)
    (d : Declared) (s : Section) : ((d.requestAll rs).part s).get? name = (d.part s).get? name := by
  induction rs generalizing d with
  | nil => rfl
  | cons r rs ih =>
      obtain ⟨hne, hrest⟩ := not_or.mp fun hc => h (List.mem_cons.mpr hc)
      exact (ih hrest (d.request r)).trans (get?_request_of_ne (Ne.symm hne) s)

/-- **After requests for different packages have been answered all of them are settled.** -/
theorem settled_requestAll {rs : List Request} (hsound : ∀ r ∈ rs, Sound r)
    (hnodup : (rs.map Request.name).Nodup) (d : Declared) :
    ∀ r ∈ rs, Settled (d.requestAll rs) r := by
  induction rs generalizing d with
  | nil => simp
  | cons r rs ih =>
      obtain ⟨hr, hrest⟩ := List.nodup_cons.mp hnodup
      intro r' hr'
      rcases List.mem_cons.mp hr' with rfl | hr'
      · exact (settled_request d (hsound r' (by simp))).congr fun s =>
          declared?_congr (get?_requestAll hr _ s)
      · exact ih (fun q hq => hsound q (by simp [hq])) hrest (d.request r) r' hr'

theorem requestAll_of_settled {rs : List Request} (h : ∀ r ∈ rs, Settled d r) :
    d.requestAll rs = d := by
  induction rs with
  | nil => rfl
  | cons r rs ih =>
      show (d.request r).requestAll rs = d
      rw [(h r (by simp)).request]
      exact ih fun q hq => h q (by simp [hq])

end Declared

/-! ### In the manifest -/

open Declared

variable {members : Entries String Value} {manifest : Value} {room : Nat} {ps : Packages}
  {P : Json.Number → Prop}

theorem packages_object (members : Entries String Value) (s : Section) :
    packages (.object members) s = ((members.get? s.key).bind Value.members?).getD [] := rfl

theorem sortByName_perm (ps : Packages) : (sortByName ps).Perm ps := List.mergeSort_perm ps _

theorem get?_putSection (members : Entries String Value) (s t : Section) (ps : Packages) :
    (putSection members s ps).get? t.key =
      if s = t ∧ ps ≠ [] then some (.object (sortByName ps)) else members.get? t.key := by
  have hkey : s.key = t.key ↔ s = t := by cases s <;> cases t <;> decide
  unfold putSection
  by_cases hps : ps = []
  · rw [if_pos hps, if_neg (by simp [hps])]
  · rw [if_neg hps, Entries.get?_put]
    simp only [hkey, hps, ne_eq, not_false_eq_true, and_true]

/-- The manifest with its sections replaced by those that are not empty. -/
def withSections (members : Entries String Value) (d : Declared) : Entries String Value :=
  putSection (putSection members .runtime d.runtime) .development d.development

theorem packages_withSections (members : Entries String Value) (d : Declared) (s : Section) :
    packages (.object (withSections members d)) s =
      if d.part s = [] then packages (.object members) s else sortByName (d.part s) := by
  rw [packages_object, packages_object]
  unfold withSections
  rw [get?_putSection, get?_putSection]
  cases s with
  | runtime =>
      by_cases hd : d.runtime = []
      · simp [part, hd]
      · simp [part, hd, Value.members?]
  | development =>
      by_cases hd : d.development = []
      · simp [part, hd]
      · simp [part, hd, Value.members?]

/-! The sections of a manifest of a shape are objects of that shape, and stay so. -/

theorem shaped_part (h : manifest.Shaped P (room + 2)) (s : Section) :
    Value.Shaped P (room + 1) (.object ((ofManifest manifest).part s)) := by
  rw [part_ofManifest]
  cases hm : manifest.members? with
  | none =>
      unfold packages Value.member?
      rw [hm]
      exact .empty
  | some members =>
      obtain rfl := Value.eq_object hm
      rw [packages_object]
      cases hk : members.get? s.key with
      | none => exact .empty
      | some v =>
          have hv : v.Shaped P (room + 1) := h.get? hk
          cases v with
          | object ps => exact hv
          | _ => exact .empty

theorem shaped_request {d : Declared} {r : Request}
    (h : ∀ s, Value.Shaped P (room + 1) (.object (d.part s))) (s : Section) :
    Value.Shaped P (room + 1) (.object ((d.request r).part s)) := by
  rcases request_cases d r with ⟨-, hsame⟩ | ⟨t, -, hdeclare⟩
  · rw [hsame]
    exact h s
  · rw [hdeclare, part_declare]
    split
    · exact (h s).put r.name (.string r.range)
    · exact h s

theorem shaped_requestAll {d : Declared} (rs : List Request)
    (h : ∀ s, Value.Shaped P (room + 1) (.object (d.part s))) (s : Section) :
    Value.Shaped P (room + 1) (.object ((d.requestAll rs).part s)) := by
  induction rs generalizing d with
  | nil => exact h s
  | cons r rs ih => exact ih (shaped_request h)

theorem shaped_putSection {s : Section} (h : Value.Shaped P (room + 2) (.object members))
    (hps : Value.Shaped P (room + 1) (.object ps)) :
    Value.Shaped P (room + 2) (.object (putSection members s ps)) := by
  unfold putSection
  split
  · exact h
  · exact h.put s.key (hps.perm (sortByName_perm ps))

/-- A manifest keeps its shape when requests are answered in it. -/
theorem shaped_withSections (rs : List Request)
    (h : Value.Shaped P (room + 2) (.object members)) :
    Value.Shaped P (room + 2) (.object (withSections members
      ((ofManifest (.object members)).requestAll rs))) := by
  have hparts := shaped_requestAll rs (shaped_part h)
  exact shaped_putSection (shaped_putSection h (hparts .runtime)) (hparts .development)

/-- Answering requests empties no section. -/
theorem part_of_requestAll {rs : List Request} {d : Declared} {s : Section}
    (h : (d.requestAll rs).part s = []) : d.part s = [] := by
  induction rs generalizing d with
  | nil => exact h
  | cons r rs ih =>
      have hrequest := ih h
      rcases request_cases d r with ⟨-, hsame⟩ | ⟨t, -, hdeclare⟩
      · rwa [hsame] at hrequest
      · rw [hdeclare, part_declare] at hrequest
        split at hrequest
        · have hput := Entries.get?_put_self (d.part s) r.name (.string r.range)
          rw [hrequest] at hput
          simp at hput
        · exact hrequest

/-- The manifest that is written holds what the requests have been answered with. -/
theorem get?_withSections {rs : List Request}
    (h : Value.Shaped P (room + 2) (.object members)) (s : Section) (name : String) :
    ((ofManifest (.object (withSections members
      ((ofManifest (.object members)).requestAll rs)))).part s).get? name =
        (((ofManifest (.object members)).requestAll rs).part s).get? name := by
  have hparts := shaped_requestAll rs (shaped_part h) s
  rw [part_ofManifest, packages_withSections]
  split
  next hempty =>
    have hbefore := part_of_requestAll hempty
    rw [part_ofManifest] at hbefore
    rw [hempty, hbefore]
  next =>
    obtain ⟨n, -, hdistinct, -⟩ := hparts.of_object
    exact Entries.get?_perm (sortByName_perm _) hdistinct name

variable {o o' : Overlay} {runtime development : List (String × String)}

theorem shaped_of_holds (hM : o.Holds path manifest) :
    manifest.Shaped Json.Number.ReadsBack (125 + 2) := hM.2.shaped

theorem alters_addDependencies (h : addDependencies o runtime development = .ok o') :
    o.Alters [o.resolve path] o' := by
  obtain ⟨manifest, -, h⟩ := Except.bind_ok h
  simp only at h
  split at h
  · cases h
    exact .refl o _
  · split at h
    · cases h
    · exact Overlay.alters_writeDocument h

/-- Requests that are settled change nothing. -/
theorem addDependencies_of_settled (hread : o.readDocument path = .ok manifest)
    (h : ∀ r ∈ requests runtime development, Settled (ofManifest manifest) r) :
    addDependencies o runtime development = .ok o := by
  unfold addDependencies
  rw [hread]
  simp only [bind, Except.bind]
  rw [if_pos (requestAll_of_settled h)]

/-- **Requests that were answered are answered in the manifest**, and no other file has
changed. -/
theorem addDependencies_ok (hM : o.Holds path manifest)
    (h : addDependencies o runtime development = .ok o') :
    o.Touches path o' ∧ ∃ manifest', o'.Holds path manifest' ∧
      ∀ s name, ((ofManifest manifest').part s).get? name =
        (((ofManifest manifest).requestAll (requests runtime development)).part s).get? name := by
  unfold addDependencies at h
  rw [hM.readDocument] at h
  simp only [bind, Except.bind] at h
  split at h
  next hsame =>
    cases h
    exact ⟨.refl o path, manifest, hM, fun s name => by rw [hsame]⟩
  next =>
    split at h
    · simp at h
    next members hmembers =>
      obtain rfl := Value.eq_object hmembers
      have hshaped := shaped_of_holds hM
      obtain ⟨T, H⟩ := Overlay.holds_writeDocument (shaped_withSections _ hshaped).readable h
      exact ⟨T, _, H, get?_withSections hshaped⟩

/-- After requests for different packages, all of them are settled in the manifest. -/
theorem settled_of_addDependencies (hM : o.Holds path manifest)
    (h : addDependencies o runtime development = .ok o')
    (hsound : ∀ r ∈ requests runtime development, Sound r)
    (hnodup : ((requests runtime development).map Request.name).Nodup) :
    o.Touches path o' ∧ ∃ manifest', o'.Holds path manifest' ∧
      ∀ r ∈ requests runtime development, Settled (ofManifest manifest') r := by
  obtain ⟨T, manifest', H, hsame⟩ := addDependencies_ok hM h
  refine ⟨T, manifest', H, fun r hr => ?_⟩
  exact (settled_requestAll hsound hnodup _ r hr).congr fun s => declared?_congr (hsame s r.name)

end Upkeep.Manifest
