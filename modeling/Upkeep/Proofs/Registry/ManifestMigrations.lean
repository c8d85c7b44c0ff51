/-
Migrations of the manifest.

The upgrade of React asks for packages and looks at nothing else; the import of the testing
library's types also writes a file of its own, and drops a package.  Where a run finds what
it asks for it does nothing, and that is what a run leaves.
-/
import Upkeep.Proofs.Registry.Settled
import Upkeep.Registry.ReactUpgrade
import Upkeep.Registry.TestingLibraryTypes

namespace Upkeep

variable {o o' : Overlay}

namespace ReactUpgrade

open Manifest (requests)

/-- The packages that are asked for on the runtime side, and for development. -/
def packages : List (String × String) × List (String × String) :=
  ([("react", target), ("react-dom", target)],
    [("@types/react", target), ("@types/react-dom", target)])

theorem sound_packages : ∀ r ∈ requests packages.1 packages.2, Manifest.Declared.Sound r :=
  Manifest.sound_requests (by decide)

theorem nodup_packages : ((requests packages.1 packages.2).map Manifest.Request.name).Nodup := by
  decide

/-- What is done with the manifest. -/
def raise (manifest : Json.Value) (o : Overlay) : Except Failure Overlay :=
  match (Manifest.version? manifest "react").bind Version.coerce? with
  | none => .ok o
  | some react =>
    if isOutdated react then Manifest.addDependencies o packages.1 packages.2 else .ok o

theorem run_eq : run = Manifest.reading raise := rfl

/-- Nothing is done where React is not outdated, or where all packages are settled. -/
theorem raise_of_settled {manifest : Json.Value} (hM : o.Holds Manifest.path manifest)
    (h : (∀ react, (Manifest.version? manifest "react").bind Version.coerce? = some react →
        isOutdated react = false) ∨
      ∀ r ∈ requests packages.1 packages.2,
        Manifest.Declared.Settled (Manifest.Declared.ofManifest manifest) r) :
    raise manifest o = .ok o := by
  unfold raise
  split
  · rfl
  next react hreact =>
    rcases h with hcurrent | hsettled
    · rw [if_neg (by simp [hcurrent react hreact])]
    · split
      · exact Manifest.addDependencies_of_settled hM.readDocument hsettled
      · rfl

/-- **The upgrade of React settles.** -/
theorem run_settles (hnumbers : Manifest.NumbersReadBack o) (h : run o = .ok o') :
    Overlay.Settles run o o' := by
  rw [run_eq] at h ⊢
  refine Manifest.settles_reading hnumbers h fun manifest hM hraise => ?_
  by_cases houtdated : ∃ react,
      (Manifest.version? manifest "react").bind Version.coerce? = some react ∧
        isOutdated react = true
  · obtain ⟨react, hreact, hold⟩ := houtdated
    unfold raise at hraise
    rw [hreact] at hraise
    simp only [hold, if_true] at hraise
    obtain ⟨T, manifest', hM', hsettled⟩ :=
      Manifest.settled_of_addDependencies hM hraise sound_packages nodup_packages
    exact ⟨T.reaches, manifest', hM', fun o'' _ hM'' => raise_of_settled hM'' (.inr hsettled)⟩
  · have hcurrent : ∀ react, (Manifest.version? manifest "react").bind Version.coerce? =
        some react → isOutdated react = false := by
      intro react hreact
      by_contra hold
      exact houtdated ⟨react, hreact, by simpa using hold⟩
    rw [raise_of_settled hM (.inl hcurrent)] at hraise
    cases hraise
    exact ⟨.refl o, manifest, hM, fun o'' _ hM'' => raise_of_settled hM'' (.inl hcurrent)⟩

end ReactUpgrade

namespace TestingLibraryTypes

/-- What is done with the manifest. -/
def replaceTypes (manifest : Json.Value) (o : Overlay) : Except Failure Overlay :=
  if shipsTypes manifest then
    importTypes o >>= fun o => Manifest.removeDependencies o [] [oldTypes]
  else .ok o

theorem run_eq : run = Manifest.reading replaceTypes := rfl

/-- The types are imported. -/
def Imported (o : Overlay) : Prop :=
  ∃ text, o.content? typesPath = some text ∧ Text.containsText text package = true

theorem importTypes_of_imported (h : Imported o) : importTypes o = .ok o := by
  obtain ⟨text, htext, hcontains⟩ := h
  unfold importTypes
  rw [htext]
  simp only
  rw [if_pos hcontains]

/-- Importing types imports them, and changes no other file. -/
theorem importTypes_ok (h : importTypes o = .ok o') : o.Touches typesPath o' ∧ Imported o' := by
  have hline : package.toList <:+: importLine.toList := by
    rw [← Text.contains_iff]
    decide
  unfold importTypes at h
  split at h
  next content hcontent =>
    split at h
    next hcontains =>
      cases h
      exact ⟨.refl o typesPath, content, hcontent, hcontains⟩
    next =>
      have W := Overlay.update_ok (Overlay.mapError_ok h)
      refine ⟨W.touches, importLine ++ content, by rw [W.content?, if_pos rfl], ?_⟩
      unfold Text.containsText
      rw [Text.contains_iff, String.toList_append]
      exact hline.trans (List.infix_append [] _ _)
  next =>
    have W := Overlay.add_ok (Overlay.mapError_ok h)
    exact ⟨W.touches, importLine, by rw [W.content?, if_pos rfl], Text.contains_iff.mpr hline⟩

theorem names_typesPath (o : Overlay) :
    (o.resolve typesPath).names = [".config", "types", "setupTests.d.ts"] :=
  Overlay.names_resolve (by decide) o

theorem resolve_ne (o : Overlay) : o.resolve typesPath ≠ o.resolve Manifest.path := by
  refine Overlay.resolve_ne_of_names ?_
  rw [names_typesPath, Manifest.names_path]
  decide

/-- Nothing is done where the types are not shipped, or where they are imported and the old
package is gone. -/
theorem replaceTypes_of_settled {manifest : Json.Value} (hM : o.Holds Manifest.path manifest)
    (h : shipsTypes manifest = false ∨
      Imported o ∧ ∃ before, manifest = Manifest.removed before [] [oldTypes]) :
    replaceTypes manifest o = .ok o := by
  unfold replaceTypes
  rcases h with hships | ⟨himported, before, rfl⟩
  · rw [if_neg (by simp [hships])]
  · rw [importTypes_of_imported himported]
    split
    · exact Manifest.removeDependencies_of_removed hM
    · rfl

/-- **The import of the types settles.** -/
theorem run_settles (hnumbers : Manifest.NumbersReadBack o) (h : run o = .ok o') :
    Overlay.Settles run o o' := by
  rw [run_eq] at h ⊢
  refine Manifest.settles_reading hnumbers h fun manifest hM hreplace => ?_
  by_cases hships : shipsTypes manifest = true
  · unfold replaceTypes at hreplace
    rw [if_pos hships] at hreplace
    obtain ⟨o₁, himport, hremove⟩ := Except.bind_ok hreplace
    obtain ⟨T₁, text, htext, hcontains⟩ := importTypes_ok himport
    have hM₁ := hM.congr (T₁.frame Manifest.path (resolve_ne o))
    obtain ⟨T₂, hM₂⟩ := Manifest.removeDependencies_ok hM₁ hremove
    refine ⟨T₁.reaches.trans T₂.reaches, _, hM₂, fun o'' hshows hM'' => ?_⟩
    have himported : Imported o'' := by
      refine ⟨text, ?_, hcontains⟩
      rw [hshows.content?, T₂.frame typesPath (resolve_ne o₁).symm, htext]
    exact replaceTypes_of_settled hM'' (.inr ⟨himported, manifest, rfl⟩)
  · have hships' : shipsTypes manifest = false := by simpa using hships
    rw [replaceTypes_of_settled hM (.inl hships')] at hreplace
    cases hreplace
    exact ⟨.refl o, manifest, hM, fun o'' _ hM'' => replaceTypes_of_settled hM'' (.inl hships')⟩

end TestingLibraryTypes

end Upkeep
