/-
The migration of the ESLint configuration.

Revising a configuration twice is revising it once: what an override loses is gone, and
what it gains stands where it stood.  With the comment lines in front and the packages of
the new rule declared, a second run writes the text that is there.
-/
import Upkeep.Proofs.Registry.CommentLines
import Upkeep.Proofs.Registry.Settled

namespace Upkeep.EslintDeprecation

open Json (Value)

variable {members : Entries String Value}

/-! ### Revising twice -/

theorem get?_dropPlugin {k : String} (h : k ≠ "plugins") (members : Entries String Value) :
    (dropPlugin members).get? k = members.get? k := by
  unfold dropPlugin
  split
  · simp only
    split
    · rw [Entries.get?_erase, if_neg (Ne.symm h)]
    · exact Entries.get?_put_of_ne _ _ (Ne.symm h)
  · rfl

theorem get?_replaceRule {k : String} (h : k ≠ "rules") (members : Entries String Value) :
    (replaceRule members).get? k = members.get? k := by
  unfold replaceRule
  split
  · exact Entries.get?_put_of_ne _ _ (Ne.symm h)
  · rfl

/-- The list of plugins does without the old one, and is not empty. -/
def PluginDropped (members : Entries String Value) : Prop :=
  ∀ plugins, members.get? "plugins" = some (.array plugins) →
    plugins ≠ [] ∧ ∀ p ∈ plugins, p.string? ≠ some "deprecation"

theorem pluginDropped_dropPlugin (members : Entries String Value) :
    PluginDropped (dropPlugin members) := by
  unfold dropPlugin
  split
  next plugins hplugins =>
    simp only
    split
    next hnil =>
      intro kept hkept
      rw [Entries.get?_erase, if_pos rfl] at hkept
      simp at hkept
    next hne =>
      intro kept hkept
      rw [Entries.get?_put_self] at hkept
      cases hkept
      exact ⟨hne, fun p hp => by simpa using (List.mem_filter.mp hp).2⟩
  next hother =>
    intro plugins hplugins
    exact absurd hplugins (hother plugins)

theorem dropPlugin_of_dropped (h : PluginDropped members) : dropPlugin members = members := by
  unfold dropPlugin
  split
  next plugins hplugins =>
    obtain ⟨hne, hkept⟩ := h plugins hplugins
    have hfilter : plugins.filter (fun p => p.string? ≠ some "deprecation") = plugins :=
      List.filter_eq_self.mpr fun p hp => by simpa using hkept p hp
    simp only [hfilter]
    rw [if_neg hne, Entries.put_of_get? hplugins]
  next => rfl

/-- Replacing the rule twice is replacing it once. -/
theorem replaceRule_replaceRule (members : Entries String Value) :
    replaceRule (replaceRule members) = replaceRule members := by
  have hne : newRule ≠ oldRule := by decide
  have hrules : ∀ rules : Entries String Value,
      ((((rules.erase oldRule).put newRule (.string "warn")).erase oldRule).put newRule
        (.string "warn")) = (rules.erase oldRule).put newRule (.string "warn") := by
    intro rules
    rw [Entries.erase_put_of_ne hne, Entries.erase_erase, Entries.put_put]
  cases hget : members.get? "rules" with
  | none => simp [replaceRule, hget]
  | some v =>
      cases v with
      | object rules =>
          have hreplace : ∀ ms : Entries String Value, ∀ rs, ms.get? "rules" = some (.object rs) →
              replaceRule ms = ms.put "rules"
                (.object ((Entries.erase rs oldRule).put newRule (.string "warn"))) := by
            intro ms rs hms
            unfold replaceRule
            simp only [hms]
          rw [hreplace members rules hget, hreplace _ _ (Entries.get?_put_self _ _ _), hrules,
            Entries.put_put]
      | _ => simp [replaceRule, hget]

/-- Whether an override is a target is told by a member that a revision leaves alone. -/
theorem isTarget_congr {members' : Entries String Value}
    (h : members'.get? "files" = members.get? "files") :
    isTarget (.object members') = isTarget (.object members) := by
  unfold isTarget Value.member? Value.members?
  simp only [Option.bind_some, h]

/-- **Revising an override twice is revising it once.** -/
theorem revise_revise (override : Value) : revise (revise override) = revise override := by
  cases override with
  | object members =>
      by_cases htarget : isTarget (.object members) = true
      · have hrevise : revise (.object members) = .object (replaceRule (dropPlugin members)) := by
          unfold revise
          simp only
          rw [if_pos htarget]
        have hfiles : (replaceRule (dropPlugin members)).get? "files" =
            Entries.get? members "files" := by
          rw [get?_replaceRule (by decide), get?_dropPlugin (by decide)]
        have hdropped : PluginDropped (replaceRule (dropPlugin members)) := by
          intro plugins hplugins
          rw [get?_replaceRule (by decide)] at hplugins
          exact pluginDropped_dropPlugin members plugins hplugins
        rw [hrevise]
        unfold revise
        simp only
        rw [if_pos ((isTarget_congr hfiles).trans htarget), dropPlugin_of_dropped hdropped,
          replaceRule_replaceRule]
      · have hrevise : revise (.object members) = .object members := by
          unfold revise
          simp only
          rw [if_neg htarget]
        rw [hrevise, hrevise]
  | _ => rfl

/-- **Revising a configuration twice is revising it once.** -/
theorem reviseAll_reviseAll (config : Value) : reviseAll (reviseAll config) = reviseAll config := by
  refine Value.updateMember_twice (fun v => ?_) config
  cases v with
  | array overrides =>
      simp only [List.map_map]
      congr 1
      exact List.map_congr_left fun override _ => revise_revise override
  | _ => rfl

/-! ### A revised configuration keeps its shape -/

variable {P : Json.Number → Prop} {room : Nat}

theorem shaped_dropPlugin (h : Value.Shaped P (room + 1) (.object members)) :
    Value.Shaped P (room + 1) (.object (dropPlugin members)) := by
  unfold dropPlugin
  split
  next plugins hplugins =>
    simp only
    split
    · exact h.erase "plugins"
    · refine h.put "plugins" ?_
      obtain ⟨n, rfl, hitems⟩ := (h.get? hplugins).of_array
      exact .array fun p hp => hitems p (List.mem_of_mem_filter hp)
  next => exact h

theorem shaped_replaceRule (h : Value.Shaped P (room + 1) (.object members)) :
    Value.Shaped P (room + 1) (.object (replaceRule members)) := by
  unfold replaceRule
  split
  next rules hrules =>
    have hobject := h.get? hrules
    obtain ⟨n, rfl, -, -⟩ := hobject.of_object
    exact h.put "rules" ((hobject.erase oldRule).put newRule (.string "warn"))
  next => exact h

theorem shaped_revise {override : Value} (h : override.Shaped P room) :
    (revise override).Shaped P room := by
  cases override with
  | object members =>
      obtain ⟨room, rfl, -, -⟩ := h.of_object
      unfold revise
      simp only
      split
      · exact shaped_replaceRule (shaped_dropPlugin h)
      · exact h
  | _ => exact h

theorem shaped_reviseAll {config : Value} (h : config.Shaped P room) :
    (reviseAll config).Shaped P room := by
  refine h.updateMember (fun n v hv => ?_) "overrides"
  cases v with
  | array overrides =>
      obtain ⟨n, rfl, hitems⟩ := hv.of_array
      refine .array fun override hoverride => ?_
      obtain ⟨before, hbefore, rfl⟩ := List.mem_map.mp hoverride
      exact shaped_revise (hitems before hbefore)
  | _ => exact hv

/-! ### Running twice -/

variable {o o' : Overlay} {config manifest : Value}

/-- The text of the configuration, an empty one if there is none. -/
def configText (o : Overlay) : String := (o.content? configPath).getD ""

theorem configText_eq {text : String} (h : o.content? configPath = some text) :
    configText o = text := by
  unfold configText
  rw [h]
  rfl

/-- The numbers of the configuration, without its comment lines, read back. -/
def NumbersReadBack (o : Overlay) : Prop := Json.NumbersReadBack (body (configText o))

instance (o : Overlay) : Decidable (NumbersReadBack o) := by
  unfold NumbersReadBack
  infer_instance

theorem names_configPath (o : Overlay) : (o.resolve configPath).names = [".config", ".eslintrc"] :=
  Overlay.names_resolve (by decide) o

theorem resolve_ne (o : Overlay) : o.resolve configPath ≠ o.resolve Manifest.path := by
  refine Overlay.resolve_ne_of_names ?_
  rw [names_configPath, Manifest.names_path]
  decide

/-- The packages of the new rule. -/
def newPackages : List (String × String) :=
  [("@typescript-eslint/eslint-plugin", "^8.3.0"), ("@typescript-eslint/parser", "^8.3.0")]

theorem sound_newPackages : ∀ r ∈ Manifest.requests newPackages [], Manifest.Declared.Sound r :=
  Manifest.sound_requests (by decide)

theorem nodup_newPackages :
    ((Manifest.requests newPackages []).map Manifest.Request.name).Nodup := by
  decide

theorem run_of_lacking (h : (!o.has configPath || !o.has Manifest.path) = true) :
    run o = .ok o := by
  unfold run
  rw [if_pos h]

/-- With both files the rule is replaced where it is set, and the plugin goes. -/
theorem run_of_config (hhas : (!o.has configPath || !o.has Manifest.path) = false)
    (hread : Json.read (body (configText o)) = .ok config) :
    run o = match overrides? config with
      | none => dropPackage o
      | some overrides =>
        (if overrides.any hasOldRule then reviseFiles o (commentLines (configText o)) config
          else .ok o) >>= dropPackage := by
  unfold configText at hread ⊢
  unfold run Overlay.parseDocument
  rw [if_neg (by simp [hhas])]
  simp only [hread, Except.mapError, bind, Except.bind]
  cases overrides? config with
  | none => rfl
  | some overrides =>
      simp only
      split <;> rfl

/-- Where both files are, a run that goes through has read the configuration. -/
theorem read_of_run (hhas : (!o.has configPath || !o.has Manifest.path) = false)
    (h : run o = .ok o') : ∃ config, Json.read (body (configText o)) = .ok config := by
  cases hread : Json.read (body (configText o)) with
  | ok config => exact ⟨config, rfl⟩
  | error problem =>
      unfold configText at hread
      unfold run Overlay.parseDocument at h
      rw [if_neg (by simp [hhas])] at h
      simp [hread, Except.mapError, bind, Except.bind] at h

/-- A run that revises writes the revised configuration behind the comment lines. -/
theorem content?_of_revised (h : (reviseFiles o (commentLines (configText o)) config >>=
      dropPackage) = .ok o') :
    o'.content? configPath =
      some (withComments (commentLines (configText o)) (reviseAll config)) := by
  obtain ⟨o₁, hrevise, hdrop⟩ := Except.bind_ok h
  obtain ⟨o₂, hupdate, hadd⟩ := Except.bind_ok hrevise
  have W := Overlay.update_ok (Overlay.mapError_ok hupdate)
  rw [(Manifest.alters_removeDependencies hdrop).content? (by simpa using resolve_ne o₁),
    (Manifest.alters_addDependencies hadd).content? (by simpa using resolve_ne o₂), W.content?,
    if_pos rfl]

/-- A revised configuration is read as it was written. -/
theorem read_of_revised {text : String} (hconfig : config.Readable Json.Reader.maxDepth)
    (h : o.content? configPath = some (withComments (commentLines text) (reviseAll config))) :
    Json.read (body (configText o)) = .ok (reviseAll config) := by
  rw [configText_eq h]
  exact read_body_withComments (allComments_commentLines text)
    (shaped_reviseAll hconfig.shaped).readable

/-- Nothing is done where the plugin is gone and the configuration sets no old rule or is
revised. -/
theorem run_of_settled (hread : Json.read (body (configText o)) = .ok config)
    (hdrop : dropPackage o = .ok o)
    (h : (∀ overrides, overrides? config = some overrides → overrides.any hasOldRule = false) ∨
      reviseFiles o (commentLines (configText o)) config = .ok o) :
    run o = .ok o := by
  by_cases hhas : (!o.has configPath || !o.has Manifest.path) = true
  · exact run_of_lacking hhas
  · rw [run_of_config (by simpa using hhas) hread]
    split
    · exact hdrop
    next overrides hoverrides =>
      rcases h with hnone | hrevised
      · rw [if_neg (by simp [hnone overrides hoverrides])]
        exact hdrop
      · split
        · rw [hrevised]
          exact hdrop
        · exact hdrop

/-! What a run that went through leaves. -/

theorem dropPackage_ok (hnumbers : Manifest.NumbersReadBack o) (h : dropPackage o = .ok o') :
    o.Touches Manifest.path o' ∧ ∃ before,
      o'.Holds Manifest.path (Manifest.removed before [] [oldPlugin]) := by
  obtain ⟨manifest, hread, -⟩ := Except.bind_ok h
  obtain ⟨T, hM⟩ := Manifest.removeDependencies_ok (hnumbers.holds hread) h
  exact ⟨T, manifest, hM⟩

theorem dropPackage_of_removed
    (hM : o.Holds Manifest.path (Manifest.removed manifest [] [oldPlugin])) :
    dropPackage o = .ok o := Manifest.removeDependencies_of_removed hM

/-- The configuration is written, and the packages of the new rule are declared. -/
theorem reviseFiles_ok {comments : List (List Char)} (hnumbers : Manifest.NumbersReadBack o)
    (h : reviseFiles o comments config = .ok o') :
    o.Reaches o' ∧ o'.content? configPath = some (withComments comments (reviseAll config)) ∧
      ∃ manifest, o'.Holds Manifest.path manifest ∧
        ∀ r ∈ Manifest.requests newPackages [],
          Manifest.Declared.Settled (Manifest.Declared.ofManifest manifest) r := by
  obtain ⟨o₁, hupdate, hadd⟩ := Except.bind_ok h
  have W := Overlay.update_ok (Overlay.mapError_ok hupdate)
  obtain ⟨manifest, hread, -⟩ := Except.bind_ok hadd
  have hsame := W.touches.frame Manifest.path (resolve_ne o)
  have hM : o₁.Holds Manifest.path manifest := (hnumbers.congr hsame).holds hread
  obtain ⟨T, manifest', hM', hsettled⟩ :=
    Manifest.settled_of_addDependencies hM hadd sound_newPackages nodup_newPackages
  refine ⟨W.reaches.trans T.reaches, ?_, manifest', hM', hsettled⟩
  rw [T.frame configPath (resolve_ne o₁).symm, W.content?, if_pos rfl]

/-- Settled requests stay settled when the old plugin goes. -/
theorem settled_removed {r : Manifest.Request} (hr : r ∈ Manifest.requests newPackages [])
    (h : Manifest.Declared.Settled (Manifest.Declared.ofManifest manifest) r) :
    Manifest.Declared.Settled
      (Manifest.Declared.ofManifest (Manifest.removed manifest [] [oldPlugin])) r := by
  have hname : ∀ q ∈ Manifest.requests newPackages [], q.name ∉ [oldPlugin] := by decide
  exact h.congr fun s =>
    Manifest.Declared.declared?_congr (Manifest.get?_removed (by simp) (hname r hr) manifest s)

/-- A revised configuration is revised again without a change. -/
theorem reviseFiles_of_settled {comments : List (List Char)}
    (htext : o.content? configPath = some (withComments comments (reviseAll config)))
    (hM : o.Holds Manifest.path manifest)
    (h : ∀ r ∈ Manifest.requests newPackages [],
      Manifest.Declared.Settled (Manifest.Declared.ofManifest manifest) r) :
    reviseFiles o comments (reviseAll config) = .ok o := by
  unfold reviseFiles
  rw [reviseAll_reviseAll, Overlay.update_self htext]
  exact Manifest.addDependencies_of_settled hM.readDocument h

/-- Where no override sets the old rule, only the plugin goes. -/
theorem settles_of_idle (hmanifest : Manifest.NumbersReadBack o)
    (hread : Json.read (body (configText o)) = .ok config)
    (hnone : ∀ overrides, overrides? config = some overrides → overrides.any hasOldRule = false)
    (h : dropPackage o = .ok o') : Overlay.Settles run o o' := by
  obtain ⟨T, before, hM⟩ := dropPackage_ok hmanifest h
  refine ⟨T.reaches, fun o'' hshows => ?_⟩
  have htext : configText o'' = configText o := by
    unfold configText
    rw [hshows.content?, T.frame configPath (resolve_ne o).symm]
  exact run_of_settled (htext ▸ hread)
    (dropPackage_of_removed (hM.congr (hshows.content? _))) (.inl hnone)

/-- Where one does, the configuration is revised before the plugin goes. -/
theorem settles_of_revised (hmanifest : Manifest.NumbersReadBack o)
    (hconfig : config.Readable Json.Reader.maxDepth)
    (h : (reviseFiles o (commentLines (configText o)) config >>= dropPackage) = .ok o') :
    Overlay.Settles run o o' := by
  obtain ⟨o₁, hrevise, hdrop⟩ := Except.bind_ok h
  obtain ⟨hreaches, htext₁, manifest, hM₁, hsettled⟩ := reviseFiles_ok hmanifest hrevise
  obtain ⟨T, hM⟩ := Manifest.removeDependencies_ok hM₁ hdrop
  refine ⟨hreaches.trans T.reaches, fun o'' hshows => ?_⟩
  have hcontent : o''.content? configPath =
      some (withComments (commentLines (configText o)) (reviseAll config)) := by
    rw [hshows.content?, T.frame configPath (resolve_ne o₁).symm, htext₁]
  have hM'' := hM.congr (hshows.content? Manifest.path)
  refine run_of_settled (read_of_revised hconfig hcontent) (dropPackage_of_removed hM'') (.inr ?_)
  rw [configText_eq hcontent, commentLines_withComments (allComments_commentLines _)]
  exact reviseFiles_of_settled hcontent hM'' fun r hr => settled_removed hr (hsettled r hr)

/-- **The migration of the ESLint configuration settles.** -/
theorem run_settles (hmanifest : Manifest.NumbersReadBack o) (hconfig : NumbersReadBack o)
    (h : run o = .ok o') : Overlay.Settles run o o' := by
  by_cases hhas : (!o.has configPath || !o.has Manifest.path) = true
  · rw [run_of_lacking hhas] at h
    cases h
    refine ⟨.refl o, fun o'' hshows => run_of_lacking ?_⟩
    rw [hshows.has configPath (by simp [names_configPath]),
      hshows.has Manifest.path (by simp [Manifest.names_path]), hhas]
  have hhas' : (!o.has configPath || !o.has Manifest.path) = false := by simpa using hhas
  obtain ⟨config, hread⟩ := read_of_run hhas' h
  rw [run_of_config hhas' hread] at h
  cases hoverrides : overrides? config with
  | none =>
      rw [hoverrides] at h
      exact settles_of_idle hmanifest hread (by simp [hoverrides]) h
  | some overrides =>
      rw [hoverrides] at h
      simp only at h
      by_cases hold : overrides.any hasOldRule = true
      · rw [if_pos hold] at h
        exact settles_of_revised hmanifest (Json.readable_of_read hconfig hread) h
      · rw [if_neg hold] at h
        refine settles_of_idle hmanifest hread (fun overrides' h' => ?_) h
        rw [hoverrides] at h'
        cases h'
        simpa using hold

end Upkeep.EslintDeprecation
