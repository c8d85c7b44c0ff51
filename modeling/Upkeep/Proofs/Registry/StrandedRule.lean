/-
Overrides that keep a rule whose plugin goes.

The configuration is revised as soon as any override sets the old rule, but only the overrides
for TypeScript sources are; the plugin of the rule leaves the manifest in any case.  So an
override for other sources is left with a rule that no plugin defines, and that is the only way
in which a project gets there.

Rules and packages show in the outlines of the two documents, so the numbers in them have no say
in this, whatever they are read as when the documents are read again.
-/
import Upkeep.Proofs.Manifest.Rewritten
import Upkeep.Proofs.Registry.EslintDeprecation

namespace Upkeep.EslintDeprecation

open Json (Value)

variable {o o' : Overlay} {config config' override : Value} {members : Entries String Value}

/-! ### Overrides that keep the rule -/

theorem hasOldRule_object :
    hasOldRule (.object members) = true ↔
      ∃ rules, members.get? "rules" = some (.object rules) ∧
        (Entries.get? rules oldRule).isSome = true := by
  unfold hasOldRule
  show ((members.get? "rules").bind fun rules => rules.member? oldRule).isSome = true ↔ _
  cases members.get? "rules" with
  | none => simp
  | some v => cases v <;> simp [Value.member?, Value.members?]

/-- Where the rule is replaced it is gone. -/
theorem hasOldRule_replaceRule (members : Entries String Value) :
    hasOldRule (.object (replaceRule members)) = false := by
  rw [Bool.eq_false_iff]
  intro hold
  obtain ⟨rules, hrules, hrule⟩ := hasOldRule_object.mp hold
  unfold replaceRule at hrules
  split at hrules
  next before hbefore =>
    rw [Entries.get?_put_self] at hrules
    cases hrules
    rw [Entries.get?_put_of_ne _ _ (by decide), Entries.get?_erase, if_pos rfl] at hrule
    cases hrule
  next hother => exact hother rules hrules

/-- **A revision takes the old rule from overrides for TypeScript sources, and from no
others.** -/
theorem hasOldRule_revise (override : Value) :
    hasOldRule (revise override) = (hasOldRule override && !isTarget override) := by
  cases override with
  | object members =>
      unfold revise
      simp only
      by_cases htarget : isTarget (.object members) = true
      · rw [if_pos htarget, hasOldRule_replaceRule, htarget]
        simp
      · have hother : isTarget (.object members) = false := by simpa using htarget
        rw [if_neg htarget, hother]
        simp
  | _ => rfl

theorem overrides?_reviseAll (config : Value) :
    overrides? (reviseAll config) = (overrides? config).map (List.map revise) := by
  unfold overrides? reviseAll
  rw [Value.member?_updateMember, if_pos rfl]
  cases config.member? "overrides" with
  | none => rfl
  | some v => cases v <;> rfl

/-! ### In the outline -/

theorem hasOldRule_outline (override : Value) :
    hasOldRule override.outline = hasOldRule override := by
  unfold hasOldRule
  rw [Value.member?_outline]
  cases override.member? "rules" with
  | none => rfl
  | some rules =>
      rw [Option.map_some, Option.bind_some, Option.bind_some, Value.member?_outline,
        Option.isSome_map]

theorem overrides?_outline (config : Value) :
    overrides? config.outline = (overrides? config).map (List.map Value.outline) := by
  unfold overrides?
  rw [Value.member?_outline]
  cases config.member? "overrides" with
  | none => rfl
  | some v => cases v <;> rw [Option.map_some, Value.outline] <;> rfl

/-- Of configurations of one outline both set the rule somewhere, or none does. -/
theorem any_hasOldRule_congr (h : config'.outline = config.outline) :
    ((overrides? config').getD []).any hasOldRule =
      ((overrides? config).getD []).any hasOldRule := by
  have houtline : ∀ c : Value, ((overrides? c).getD []).any hasOldRule =
      ((overrides? c.outline).getD []).any hasOldRule := by
    intro c
    rw [overrides?_outline]
    cases overrides? c with
    | none => rfl
    | some os => simp [Function.comp_def, hasOldRule_outline]
  rw [houtline, h, ← houtline]

/-! ### What a run leaves of the rule and its plugin -/

/-- The overrides of the configuration; none where there is none that can be read. -/
def overrides (o : Overlay) : List Value :=
  match Json.read (body (configText o)) with
  | .ok config => (overrides? config).getD []
  | .error _ => []

/-- Some override sets the old rule. -/
def SetsOldRule (o : Overlay) : Prop := ∃ override ∈ overrides o, hasOldRule override = true

/-- Some override sets the old rule that is not for TypeScript sources. -/
def SetsOldRuleElsewhere (o : Overlay) : Prop :=
  ∃ override ∈ overrides o, hasOldRule override = true ∧ isTarget override = false

/-- The manifest declares the plugin of the old rule for development. -/
def DeclaresPlugin (o : Overlay) : Prop :=
  ∃ manifest, o.readDocument Manifest.path = .ok manifest ∧
    (Manifest.declared? (Manifest.packages manifest .development) oldPlugin).isSome = true

instance (o : Overlay) : Decidable (SetsOldRule o) := by
  unfold SetsOldRule
  infer_instance

instance (o : Overlay) : Decidable (SetsOldRuleElsewhere o) := by
  unfold SetsOldRuleElsewhere
  infer_instance

instance (o : Overlay) : Decidable (DeclaresPlugin o) :=
  match hread : o.readDocument Manifest.path with
  | .ok manifest => decidable_of_iff
      ((Manifest.declared? (Manifest.packages manifest .development) oldPlugin).isSome = true)
      ⟨fun h => ⟨manifest, hread, h⟩, fun ⟨_, hread', h⟩ =>
        Except.ok.inj (hread'.symm.trans hread) ▸ h⟩
  | .error _ => isFalse fun ⟨_, hread', _⟩ => nomatch hread.symm.trans hread'

theorem overrides_of_read (h : Json.read (body (configText o)) = .ok config) :
    overrides o = (overrides? config).getD [] := by
  unfold overrides
  rw [h]

theorem overrides_of_configText (h : configText o' = configText o) :
    overrides o' = overrides o := by
  unfold overrides
  rw [h]

/-- Where a configuration has overrides it is there. -/
theorem has_of_mem_overrides (h : override ∈ overrides o) : o.has configPath = true := by
  cases hcontent : o.content? configPath with
  | some text => exact Overlay.hasAt_of_contentAt? (by simp [names_configPath]) hcontent
  | none =>
      have hempty : overrides o = [] := by
        unfold overrides configText
        rw [hcontent]
        decide +kernel
      rw [hempty] at h
      cases h

theorem has_of_declaresPlugin (h : DeclaresPlugin o) : o.has Manifest.path = true := by
  obtain ⟨manifest, hread, -⟩ := h
  obtain ⟨text, hcontent, -⟩ := Overlay.readDocument_ok hread
  exact Overlay.hasAt_of_contentAt? (by simp [Manifest.names_path]) hcontent

/-- Once it is dropped the plugin is not declared. -/
theorem not_declaresPlugin_of_dropPackage (h : dropPackage o = .ok o') : ¬DeclaresPlugin o' := by
  obtain ⟨before, hread, -⟩ := Except.bind_ok h
  obtain ⟨manifest, hmanifest, houtline⟩ := Manifest.readDocument_removeDependencies hread h
  rintro ⟨after, hafter, hdeclared⟩
  cases hmanifest.symm.trans hafter
  rw [← Manifest.declared?_outline, houtline, Manifest.declared?_outline] at hdeclared
  unfold Manifest.removed at hdeclared
  rw [Manifest.packages_dropFrom, if_pos rfl,
    Manifest.declared?_dropAll _ (List.mem_singleton_self oldPlugin)] at hdeclared
  cases hdeclared

/-- Where no override sets the rule, only the plugin goes. -/
theorem leaves_of_idle (hnone : ¬SetsOldRule o) (h : dropPackage o = .ok o') :
    ¬DeclaresPlugin o' ∧ (SetsOldRule o' ↔ SetsOldRuleElsewhere o) := by
  have htext : configText o' = configText o := by
    unfold configText
    rw [(Manifest.alters_removeDependencies h).content? (by simpa using resolve_ne o)]
  refine ⟨not_declaresPlugin_of_dropPackage h, ?_⟩
  unfold SetsOldRule
  rw [overrides_of_configText htext]
  exact iff_of_false hnone fun ⟨override, hmem, hold, _⟩ => hnone ⟨override, hmem, hold⟩

/-- What is read as a revision sets the rule where it was set for other sources. -/
theorem setsOldRule_of_reviseAll (hread : Json.read (body (configText o)) = .ok config)
    (hread' : Json.read (body (configText o')) = .ok config')
    (houtline : config'.outline = (reviseAll config).outline) :
    SetsOldRule o' ↔ SetsOldRuleElsewhere o := by
  have hany : SetsOldRule o' ↔ (overrides o').any hasOldRule = true := List.any_eq_true.symm
  unfold SetsOldRuleElsewhere
  rw [hany, overrides_of_read hread, overrides_of_read hread', any_hasOldRule_congr houtline,
    overrides?_reviseAll]
  cases overrides? config with
  | none => simp
  | some os => simp [hasOldRule_revise]

/-- Where one does, the plugin goes as well, and the rule only from its targets. -/
theorem leaves_of_revised (hread : Json.read (body (configText o)) = .ok config)
    (h : (reviseFiles o (commentLines (configText o)) config >>= dropPackage) = .ok o') :
    ¬DeclaresPlugin o' ∧ (SetsOldRule o' ↔ SetsOldRuleElsewhere o) := by
  obtain ⟨o₁, -, hdrop⟩ := Except.bind_ok h
  obtain ⟨config', hread', houtline⟩ :=
    exists_read_body_withComments (allComments_commentLines (configText o))
      (shaped_reviseAll (Json.inRange_of_read hread))
  rw [← configText_eq (content?_of_revised h)] at hread'
  exact ⟨not_declaresPlugin_of_dropPackage hdrop, setsOldRule_of_reviseAll hread hread' houtline⟩

/-- After a run with both files the plugin is not declared, and the rule is set where it was set
for other sources. -/
theorem run_leaves (hhas : (!o.has configPath || !o.has Manifest.path) = false)
    (h : run o = .ok o') :
    ¬DeclaresPlugin o' ∧ (SetsOldRule o' ↔ SetsOldRuleElsewhere o) := by
  obtain ⟨config, hread⟩ := read_of_run hhas h
  have hoverrides := overrides_of_read hread
  rw [run_of_config hhas hread] at h
  split at h
  next hnone =>
    rw [hnone] at hoverrides
    exact leaves_of_idle (by simp [SetsOldRule, hoverrides]) h
  next os hos =>
    rw [hos] at hoverrides
    by_cases hold : os.any hasOldRule = true
    · rw [if_pos hold] at h
      exact leaves_of_revised hread h
    · rw [if_neg hold] at h
      exact leaves_of_idle (by simpa [SetsOldRule, hoverrides] using hold) h

/-- **Exactly an override for other sources that sets the rule is left without its plugin.** -/
theorem codemod_strands_iff {options : Options} (h : codemod.run o options = .ok o')
    (hplugin : DeclaresPlugin o) :
    (¬DeclaresPlugin o' ∧ SetsOldRule o') ↔ SetsOldRuleElsewhere o := by
  have hrun : run o = .ok o' := Overlay.mapError_ok h
  by_cases hhas : (!o.has configPath || !o.has Manifest.path) = true
  · rw [run_of_lacking hhas] at hrun
    cases hrun
    refine iff_of_false (fun hstrands => hstrands.1 hplugin) fun ⟨_, hmem, _⟩ => ?_
    simp [has_of_mem_overrides hmem, has_of_declaresPlugin hplugin] at hhas
  · obtain ⟨hgone, hset⟩ := run_leaves (by simpa using hhas) hrun
    rw [hset]
    exact and_iff_right hgone

/-- The rule is set for all sources.  It stays, and its plugin goes. -/
theorem codemod_strands_unrestricted :
    let o : Overlay := .empty (.ofTexts [
      (".config/.eslintrc",
        "\x7b\"overrides\":[\x7b\"rules\":\x7b\"deprecation/deprecation\":\"warn\"\x7d\x7d]\x7d"),
      ("package.json",
        "\x7b\"devDependencies\":\x7b\"@typescript-eslint/eslint-plugin\":\"9\"," ++
          "\"@typescript-eslint/parser\":\"9\",\"eslint-plugin-deprecation\":\"2\"\x7d\x7d")])
    DeclaresPlugin o ∧
      ∃ o', codemod.run o [] = .ok o' ∧ ¬DeclaresPlugin o' ∧ SetsOldRule o' := by
  intro o
  have hplugin : DeclaresPlugin o := by decide +kernel
  have helsewhere : SetsOldRuleElsewhere o := by decide +kernel
  have hrun : ∃ o' ∈ (codemod.run o []).toOption, o'.hasChanges = true := by decide +kernel
  obtain ⟨o', hok, -⟩ := Except.exists_ok hrun
  have hstrands := (codemod_strands_iff hok hplugin).mpr helsewhere
  exact ⟨hplugin, o', hok, hstrands⟩

end Upkeep.EslintDeprecation
