/-
A manifest that is read after requests were answered or packages removed.

Whether a package is declared, and with which range, shows in the outline of the manifest.  So
the requests that were answered are found settled when the manifest is read again, with no
word about its numbers; and what stands beside the sections stands there still.  Nor are packages
found that were removed.
-/
import Upkeep.Proofs.Manifest.Removal
import Upkeep.Proofs.Overlay.Rewritten

namespace Upkeep.Manifest

open Declared
open Json (Value)

variable {manifest manifest' : Value} {members : Entries String Value} {key name : String}
  {s : Section} {r : Request}

theorem packages_outline (manifest : Value) (s : Section) :
    packages manifest.outline s = (packages manifest s).map fun e => (e.1, e.2.outline) := by
  unfold packages
  rw [Value.member?_outline]
  cases manifest.member? s.key with
  | none => rfl
  | some v =>
      rw [Option.map_some, Option.bind_some, Option.bind_some, Value.members?_outline]
      cases v.members? <;> rfl

theorem declared?_outline (manifest : Value) (s : Section) (name : String) :
    declared? (packages manifest.outline s) name = declared? (packages manifest s) name := by
  unfold declared?
  rw [packages_outline, Entries.get?_map]
  cases (packages manifest s).get? name with
  | none => rfl
  | some v => exact congrArg (Option.filter _) (Value.string?_outline v)

/-- What is settled in a manifest is settled in every one of its outline. -/
theorem Declared.Settled.of_outline (h : Settled (ofManifest manifest) r)
    (houtline : manifest'.outline = manifest.outline) : Settled (ofManifest manifest') r := by
  refine h.congr fun s => ?_
  rw [part_ofManifest, part_ofManifest, ← declared?_outline, houtline, declared?_outline]

/-- The key is that of no section. -/
def Beside (key : String) : Prop := ∀ s : Section, s.key ≠ key

theorem get?_putSection_beside (h : Beside key) (members : Entries String Value) (s : Section)
    (ps : Packages) : (putSection members s ps).get? key = members.get? key := by
  unfold putSection
  split
  · rfl
  · exact Entries.get?_put_of_ne _ _ (h s)

theorem get?_withSections_beside (h : Beside key) (members : Entries String Value)
    (d : Declared) : (withSections members d).get? key = members.get? key := by
  unfold withSections
  rw [get?_putSection_beside h, get?_putSection_beside h]

variable {o o' : Overlay} {runtime development : List (String × String)}

/-- **Answered requests are settled in the manifest that is read next**, and what stands beside
the sections is the same there but for its numbers. -/
theorem readDocument_addDependencies (hread : o.readDocument path = .ok manifest)
    (h : addDependencies o runtime development = .ok o')
    (hsound : ∀ r ∈ requests runtime development, Sound r)
    (hnodup : ((requests runtime development).map Request.name).Nodup) :
    ∃ manifest', o'.readDocument path = .ok manifest' ∧
      (∀ r ∈ requests runtime development, Settled (ofManifest manifest') r) ∧
      ∀ key, Beside key →
        (manifest'.member? key).map Value.outline = (manifest.member? key).map Value.outline := by
  have hsettled := settled_requestAll hsound hnodup (ofManifest manifest)
  unfold addDependencies at h
  rw [hread] at h
  simp only [bind, Except.bind] at h
  split at h
  next hsame =>
    cases h
    rw [hsame] at hsettled
    exact ⟨manifest, hread, hsettled, fun _ _ => rfl⟩
  next =>
    split at h
    · cases h
    next members hmembers =>
      obtain rfl := Value.eq_object hmembers
      have hshaped : Value.Shaped Json.Number.InRange (125 + 2) (.object members) :=
        Overlay.shaped_of_readDocument hread
      obtain ⟨manifest', hread', houtline⟩ :=
        Overlay.exists_readDocument_of_write (shaped_withSections _ hshaped) h
      refine ⟨manifest', hread', fun r hr => ?_, fun key hkey => ?_⟩
      · refine Settled.of_outline ((hsettled r hr).congr fun s => ?_) houtline
        exact declared?_congr (get?_withSections hshaped s r.name)
      · rw [Value.member?_congr houtline]
        exact congrArg (Option.map Value.outline) (get?_withSections_beside hkey members _)

/-- **The manifest that is read after a removal has the outline of what was left.** -/
theorem readDocument_removeDependencies {runtime development : List String}
    (hread : o.readDocument path = .ok manifest)
    (h : removeDependencies o runtime development = .ok o') :
    ∃ manifest', o'.readDocument path = .ok manifest' ∧
      manifest'.outline = (removed manifest runtime development).outline := by
  unfold removeDependencies at h
  rw [hread] at h
  simp only [bind, Except.bind] at h
  split at h
  next hsame =>
    cases h
    exact ⟨manifest, hread, congrArg Value.outline (Eq.symm hsame)⟩
  next =>
    have hshaped := Overlay.shaped_of_readDocument hread
    exact Overlay.exists_readDocument_of_write (shaped_removed hshaped runtime development) h

end Upkeep.Manifest
