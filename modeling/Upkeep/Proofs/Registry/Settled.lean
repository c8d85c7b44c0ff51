/-
Migrations that are run again.

A second run looks at what the first one left.  Whatever the first one wrote is settled
there: the packages that it asked for are declared, those that it dropped are gone, and the
texts that it put in are found.  So the second run leaves everything as it is, by whichever
of its branches it gets there.
-/
import Upkeep.Proofs.Manifest.Removal
import Upkeep.Proofs.Spelling

namespace Upkeep

namespace Overlay

/-- The second overlay shows the files that the first one shows. -/
structure Shows (o o' : Overlay) : Prop where
  content? : ∀ s, o'.content? s = o.content? s
  has : ∀ s, (o.resolve s).names ≠ [] → o'.has s = o.has s

/-- A relative spelling means the same whatever the base of the project is. -/
theorem names_resolve {s : String} {names : List String}
    (h : ProjectPath.IsRelative s.toList ∧
      ProjectPath.follow (ProjectPath.parts s.toList) = names)
    (o : Overlay) : (o.resolve s).names = names :=
  (ProjectPath.names_resolve_relative o.project.base h.1).trans h.2

theorem resolve_ne_of_names {o : Overlay} {s t : String}
    (h : (o.resolve s).names ≠ (o.resolve t).names) : o.resolve s ≠ o.resolve t :=
  fun heq => h (congrArg ProjectPath.names heq)

theorem notMem_of_names {o : Overlay} {s : String} {paths : List ProjectPath}
    (h : (o.resolve s).names ∉ paths.map ProjectPath.names) : o.resolve s ∉ paths :=
  fun hmem => h (List.mem_map_of_mem hmem)

/-- An edit came by accepted calls from one overlay to another, and does nothing to an overlay
that shows what that one shows. -/
structure Settles (edit : Overlay → Except Failure Overlay) (o o' : Overlay) : Prop where
  reaches : Reaches o o'
  again : ∀ o'', o'.Shows o'' → edit o'' = .ok o''

end Overlay

namespace Manifest

theorem names_path (o : Overlay) : (o.resolve path).names = ["package.json"] :=
  Overlay.names_resolve (by decide) o

/-- The numbers of the manifest, if there is one, read back. -/
def NumbersReadBack (o : Overlay) : Prop :=
  ∀ text ∈ o.content? path, Json.NumbersReadBack text

instance (o : Overlay) : Decidable (NumbersReadBack o) := by
  unfold NumbersReadBack
  infer_instance

theorem NumbersReadBack.holds {o : Overlay} (h : NumbersReadBack o) {manifest : Json.Value}
    (hread : o.readDocument path = .ok manifest) : o.Holds path manifest := by
  obtain ⟨text, htext, hmanifest⟩ := Overlay.readDocument_ok hread
  exact ⟨⟨text, htext, hmanifest⟩, Json.readable_of_read (h text htext) hmanifest⟩

theorem NumbersReadBack.congr {o o' : Overlay} (h : NumbersReadBack o)
    (hsame : o'.content? path = o.content? path) : NumbersReadBack o' :=
  fun text htext => h text (hsame ▸ htext)

/-- An edit that reads the manifest, where there is one. -/
def reading (body : Json.Value → Overlay → Except Failure Overlay) (o : Overlay) :
    Except Failure Overlay :=
  if !o.has path then .ok o else o.readDocument path >>= fun manifest => body manifest o

/-- **Such an edit settles as soon as its body does.**  The body is told the manifest that is
there; what it leaves must be a manifest with which it does nothing. -/
theorem settles_reading {body : Json.Value → Overlay → Except Failure Overlay}
    {o o' : Overlay} (hnumbers : NumbersReadBack o) (h : reading body o = .ok o')
    (hbody : ∀ manifest, o.Holds path manifest → body manifest o = .ok o' →
      o.Reaches o' ∧ ∃ manifest', o'.Holds path manifest' ∧
        ∀ o'', o'.Shows o'' → o''.Holds path manifest' → body manifest' o'' = .ok o'') :
    Overlay.Settles (reading body) o o' := by
  by_cases hhas : o.has path = true
  · unfold reading at h
    rw [hhas] at h
    obtain ⟨manifest, hread, hrun⟩ := Except.bind_ok h
    obtain ⟨hreaches, manifest', hM, hagain⟩ := hbody manifest (hnumbers.holds hread) hrun
    refine ⟨hreaches, fun o'' hshows => ?_⟩
    have hM' := hM.congr (hshows.content? path)
    unfold reading
    rw [hM'.readDocument]
    split
    · rfl
    · exact hagain o'' hshows hM'
  · have hlacking : o.has path = false := by simpa using hhas
    unfold reading at h
    rw [hlacking] at h
    cases h
    refine ⟨.refl o, fun o'' hshows => ?_⟩
    unfold reading
    rw [hshows.has path (by simp [names_path]), hlacking]
    rfl

/-- Ranges that neither are empty nor supersede themselves make sound requests. -/
theorem sound_requests {runtime development : List (String × String)}
    (h : ∀ e ∈ runtime ++ development,
      e.2 ≠ "" ∧ Version.supersedes e.2 e.2 false = false) :
    ∀ r ∈ requests runtime development, Declared.Sound r := by
  intro r hr
  rcases List.mem_append.mp hr with hr | hr
  · obtain ⟨e, he, rfl⟩ := List.mem_map.mp hr
    exact ⟨(h e (by simp [he])).1, (h e (by simp [he])).2⟩
  · obtain ⟨e, he, rfl⟩ := List.mem_map.mp hr
    exact ⟨(h e (by simp [he])).1, (h e (by simp [he])).2⟩

end Manifest

end Upkeep
