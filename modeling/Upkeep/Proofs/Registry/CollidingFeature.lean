/-
The example addition, run again.

The parts of the addition do not meet, with one exception: the module of the feature can be the
deprecated one.  Then a second run puts in what the first one took out, and takes it out by
forgetting that it was put in, which shows the file of the project again if there is one.  This
is the only way in which the check of the addition fails.
-/
import Upkeep.Proofs.Codemod.Idempotence
import Upkeep.Proofs.Registry.ExampleAddition

namespace Upkeep.ExampleAddition

variable {p : Project} {o o' : Overlay} {f : Feature} {paths : List ProjectPath}
  {options : Options}

/-! ### The module and the deprecated one -/

/-- What the two parts leave that deal with modules: a module that is another file is there and
the deprecated one is gone; one that is the same file is not pending, or hides the file of the
project. -/
inductive Replaced (o : Overlay) (f : Feature) : Prop
  | apart (hne : o.resolve (modulePath f.featureName) ≠ o.resolve deprecatedPath)
      (hmodule : o.has (modulePath f.featureName) = true)
      (hgone : o.has deprecatedPath = false)
  | dropped (hsame : o.resolve (modulePath f.featureName) = o.resolve deprecatedPath)
      (hfile : o.project.isFile (o.resolve deprecatedPath) = false)
      (hnone : o.record? (o.resolve deprecatedPath) = none)
  | hidden (hsame : o.resolve (modulePath f.featureName) = o.resolve deprecatedPath)
      (hfile : o.project.isFile (o.resolve deprecatedPath) = true)
      (hdelete : o.record? (o.resolve deprecatedPath) = some .delete)

theorem Replaced.congr (h : Replaced o f) (A : o.Alters paths o')
    (hmodule : o.resolve (modulePath f.featureName) ∉ paths)
    (hdeprecated : o.resolve deprecatedPath ∉ paths) : Replaced o' f := by
  have hF := A.resolve (modulePath f.featureName)
  have hD := A.resolve deprecatedPath
  have hrecord := A.frame _ hdeprecated
  cases h with
  | apart hne hhas hgone =>
      refine .apart ?_ ((A.has hmodule).trans hhas) ((A.has hdeprecated).trans hgone)
      rw [hF, hD]
      exact hne
  | dropped hsame hfile hnone =>
      refine .dropped (hF.trans (hsame.trans hD.symm)) ?_ ?_
      · rw [hD, A.project]
        exact hfile
      · rw [hD]
        exact hrecord.trans hnone
  | hidden hsame hfile hdelete =>
      refine .hidden (hF.trans (hsame.trans hD.symm)) ?_ ?_
      · rw [hD, A.project]
        exact hfile
      · rw [hD]
        exact hrecord.trans hdelete

theorem has_of_none {path : String} (h : o.record? (o.resolve path) = none) :
    o.has path = o.project.isFile (o.resolve path) := by
  unfold Overlay.has Overlay.hasAt
  rw [h]

/-- Deleting the deprecated module of the project leaves a record of it. -/
theorem record?_deleteDeprecated (hnone : o.record? (o.resolve deprecatedPath) = none)
    (hfile : o.project.isFile (o.resolve deprecatedPath) = true)
    (h : deleteDeprecated o = .ok o') :
    o'.record? (o.resolve deprecatedPath) = some .delete := by
  unfold deleteDeprecated at h
  rw [if_pos ((has_of_none hnone).trans hfile)] at h
  obtain ⟨⟨d, hadd⟩, -⟩ | ⟨-, rfl⟩ := Overlay.deleteAt_ok (Overlay.mapError_ok h)
  · rw [hnone] at hadd
    cases hadd
  · exact (Overlay.record?_put .delete).trans (if_pos rfl)

/-- A module that is not the deprecated one is there when that is gone. -/
theorem replaced_of_apart (hnone : o.record? (o.resolve deprecatedPath) = none)
    (hapart : o.resolve (modulePath f.featureName) ≠ o.resolve deprecatedPath)
    (h : (addModule o f >>= deleteDeprecated) = .ok o') :
    o.Alters [o.resolve (modulePath f.featureName), o.resolve deprecatedPath] o' ∧
      Replaced o' f := by
  obtain ⟨o₁, hadd, hdelete⟩ := Except.bind_ok h
  obtain ⟨A, hmodule⟩ := addModule_ok hadd
  have hnone₁ : o₁.record? (o₁.resolve deprecatedPath) = none := by
    rw [A.resolve, A.frame _ (by simpa using Ne.symm hapart), hnone]
  obtain ⟨A', hgone⟩ := deleteDeprecated_ok hnone₁ hdelete
  have hmodule' : o₁.resolve (modulePath f.featureName) ∉ [o₁.resolve deprecatedPath] := by
    rw [A.resolve, A.resolve, List.mem_singleton]
    exact hapart
  refine ⟨?_, .apart ?_ ((A'.has hmodule').trans hmodule) hgone⟩
  · rw [A.resolve] at A'
    exact (A.mono (by simp)).trans (A'.mono (by simp))
  · rw [A'.resolve, A'.resolve, A.resolve, A.resolve]
    exact hapart

theorem replaced_of_parts (hnone : o.record? (o.resolve deprecatedPath) = none)
    (h : (addModule o f >>= deleteDeprecated) = .ok o') :
    o.Alters [o.resolve (modulePath f.featureName), o.resolve deprecatedPath] o' ∧
      Replaced o' f := by
  by_cases hsame : o.resolve (modulePath f.featureName) = o.resolve deprecatedPath
  · have hhas := has_of_none hnone
    cases hfile : o.project.isFile (o.resolve deprecatedPath) with
    | false =>
        rw [deleteDeprecated_of_added hsame (hhas.trans hfile)] at h
        cases h
        exact ⟨(o.alters_forget_put _ _).mono (by simp),
          .dropped hsame hfile (Overlay.record?_forget.trans (if_pos rfl))⟩
    | true =>
        have hmodule : o.has (modulePath f.featureName) = true := by
          unfold Overlay.has at hhas ⊢
          rw [hsame]
          exact hhas.trans hfile
        rw [addModule_of_has hmodule] at h
        have hdelete : deleteDeprecated o = .ok o' := h
        obtain ⟨A, -⟩ := deleteDeprecated_ok hnone hdelete
        have hD := A.resolve deprecatedPath
        refine ⟨A.mono (by simp), .hidden ?_ ?_ ?_⟩
        · exact (A.resolve _).trans (hsame.trans hD.symm)
        · rw [hD, A.project]
          exact hfile
        · rw [hD]
          exact record?_deleteDeprecated hnone hfile hdelete
  · exact replaced_of_apart hnone hsame h

theorem run_ok (h : run o options = .ok o') :
    ∃ f o₁ o₂, readFeature options = .ok f ∧ editManifest o f = .ok o₁ ∧
      (addModule o₁ f >>= deleteDeprecated) = .ok o₂ ∧ renameConfig o₂ = .ok o' := by
  obtain ⟨f, hf, h⟩ := Except.bind_ok h
  obtain ⟨o₁, hmanifest, h⟩ := Except.bind_ok h
  obtain ⟨o₂, hadd, h⟩ := Except.bind_ok h
  obtain ⟨o₃, hdelete, hrename⟩ := Except.bind_ok h
  refine ⟨f, o₁, o₃, hf, hmanifest, ?_, hrename⟩
  rw [hadd]
  exact hdelete

theorem run_of_parts (hf : readFeature options = .ok f) (hprepared : Prepared o)
    (hreplace : (addModule o f >>= deleteDeprecated) = .ok o') (hrenamed : Renamed o') :
    run o options = .ok o' := by
  unfold run
  rw [hf]
  show (editManifest o f >>= fun o => addModule o f >>= fun o =>
    deleteDeprecated o >>= renameConfig) = .ok o'
  rw [editManifest_of_prepared hprepared]
  show (addModule o f >>= fun o => deleteDeprecated o >>= renameConfig) = .ok o'
  rw [← bind_assoc, hreplace]
  exact renameConfig_of_renamed hrenamed

/-- What a run on a project leaves, which is what another run looks for. -/
structure Leaves (p : Project) (f : Feature) (o : Overlay) : Prop where
  project : o.project = p
  prepared : Prepared o
  replaced : Replaced o f
  renamed : Renamed o

/-! The manifest, the modules and the configurations are different files. -/

theorem manifest_notMem_modules (o : Overlay) (name : String) :
    o.resolve Manifest.path ∉ [o.resolve (modulePath name), o.resolve deprecatedPath] := by
  rw [List.mem_pair]
  rintro (hmodule | hdeprecated)
  · exact modulePath_ne (Manifest.names_path o) (by decide) name hmodule.symm
  · refine Overlay.resolve_ne_of_names ?_ hdeprecated
    rw [Manifest.names_path, names_deprecatedPath]
    decide

theorem manifest_notMem_configs (o : Overlay) :
    o.resolve Manifest.path ∉ [o.resolve oldConfigPath, o.resolve configPath] :=
  Overlay.notMem_of_names (by simp [Manifest.names_path, names_oldConfigPath, names_configPath])

theorem module_notMem_configs (o : Overlay) (name : String) :
    o.resolve (modulePath name) ∉ [o.resolve oldConfigPath, o.resolve configPath] := by
  rw [List.mem_pair]
  rintro (hold | hnew)
  · exact modulePath_ne (names_oldConfigPath o) (by decide) name hold
  · exact modulePath_ne (names_configPath o) (by decide) name hnew

theorem deprecated_notMem_configs (o : Overlay) :
    o.resolve deprecatedPath ∉ [o.resolve oldConfigPath, o.resolve configPath] :=
  Overlay.notMem_of_names
    (by simp [names_deprecatedPath, names_oldConfigPath, names_configPath])

theorem leaves_of_run (h : run (.empty p) options = .ok o') :
    ∃ f, readFeature options = .ok f ∧ Leaves p f o' := by
  obtain ⟨f, o₁, o₂, hf, hmanifest, hreplace, hrename⟩ := run_ok h
  obtain ⟨A₁, hprepared⟩ := editManifest_ok hmanifest
  have hnone : o₁.record? (o₁.resolve deprecatedPath) = none := by
    have hmanifest := manifest_notMem_modules (.empty p) f.featureName
    rw [A₁.resolve, A₁.frame _ fun hmem => hmanifest ?_]
    · rfl
    · rw [← List.mem_singleton.mp hmem]
      exact List.mem_cons_of_mem _ List.mem_cons_self
  obtain ⟨A₂, hreplaced⟩ := replaced_of_parts hnone hreplace
  obtain ⟨A₃, hrenamed⟩ := renameConfig_ok hrename
  have hprepared₂ := hprepared.congr A₂ (manifest_notMem_modules o₁ f.featureName)
  exact ⟨f, hf, A₃.project.trans (A₂.project.trans A₁.project),
    hprepared₂.congr A₃ (manifest_notMem_configs o₂),
    hreplaced.congr A₃ (module_notMem_configs o₂ f.featureName) (deprecated_notMem_configs o₂),
    hrenamed⟩

/-! ### The second run -/

/-- The module of the feature is the deprecated one, and the project has that. -/
def Collides (p : Project) (f : Feature) : Prop :=
  p.resolve (modulePath f.featureName) = p.resolve deprecatedPath ∧
    p.isFile (p.resolve deprecatedPath) = true

instance (p : Project) (f : Feature) : Decidable (Collides p f) := by
  unfold Collides
  infer_instance

/-- **Without a collision another run does nothing.** -/
theorem Leaves.run_again (L : Leaves p f o) (hf : readFeature options = .ok f)
    (h : ¬Collides p f) : run o options = .ok o := by
  refine run_of_parts hf L.prepared ?_ L.renamed
  cases L.replaced with
  | apart hne hmodule hgone =>
      rw [addModule_of_has hmodule]
      exact deleteDeprecated_of_lacking hgone
  | dropped hsame hfile hnone =>
      rw [deleteDeprecated_of_added hsame ((has_of_none hnone).trans hfile),
        Overlay.forget_put hnone]
  | hidden hsame hfile hdelete =>
      refine absurd ⟨?_, ?_⟩ h
      · rw [← L.project]
        exact hsame
      · rw [← L.project]
        exact hfile

/-- **With a collision another run shows the file of the project again.** -/
theorem Leaves.run_collides (L : Leaves p f o) (hf : readFeature options = .ok f)
    (h : Collides p f) :
    o.record? (o.resolve deprecatedPath) = some .delete ∧ run o options = .ok
      ((o.put (o.resolve deprecatedPath) (.add (code f))).forget (o.resolve deprecatedPath)) := by
  obtain ⟨hcollides, hcollidesFile⟩ := h
  rw [← L.project] at hcollides hcollidesFile
  cases L.replaced with
  | apart hne hmodule hgone => exact absurd hcollides hne
  | dropped hsame hfile hnone =>
      have hfile' : o.project.isFile (o.resolve deprecatedPath) = true := hcollidesFile
      rw [hfile] at hfile'
      cases hfile'
  | hidden hsame hfile hdelete =>
      refine ⟨hdelete, run_of_parts hf L.prepared (deleteDeprecated_of_added hsame ?_) ?_⟩
      · unfold Overlay.has Overlay.hasAt
        rw [hdelete]
        rfl
      · have hconfigs := deprecated_notMem_configs o
        rw [List.mem_pair, not_or] at hconfigs
        refine L.renamed.congr (o.alters_forget_put _ _) ?_ ?_
        · rw [List.mem_singleton]
          exact Ne.symm hconfigs.1
        · rw [List.mem_singleton]
          exact Ne.symm hconfigs.2

/-- A file that is shown again was not shown, and it is the only one. -/
theorem differs_iff {q : ProjectPath} (hopen : o.project.IsOpen)
    (hfile : o.project.isFile q = true) (hdelete : o.record? q = some .delete) (r : ProjectPath) :
    o.contentAt? r ≠ ((o.put q (.add (code f))).forget q).contentAt? r ↔ r = q := by
  rw [hopen.isFile_eq, Bool.and_eq_true] at hfile
  rw [Overlay.contentAt?_forget, Overlay.contentAt?_put]
  by_cases hr : q = r
  · subst hr
    rw [if_pos rfl, Overlay.contentAt?_of_record? hdelete]
    refine iff_of_true (fun hnone => ?_) rfl
    have hshown := hfile.2
    rw [show o.project.content? q = none from hnone.symm] at hshown
    cases hshown
  · rw [if_neg hr, if_neg hr]
    exact iff_of_false (fun hne => hne rfl) (Ne.symm hr)

/-- **The check of the addition passes exactly where the feature does not collide.**  On a fresh
overlay of a project in which everything can be read, whatever the options are with which the
addition succeeds: without a collision another run leaves everything on record as it is; with
one the check names the deprecated module, which the second run shows again. -/
theorem codemod_idempotent_iff (hopen : p.IsOpen) (h : codemod.run (.empty p) options = .ok o') :
    ∃ f, readFeature options = .ok f ∧
      (codemod.checkIdempotent (.empty p) options = .ok o' ↔ ¬Collides p f) ∧
      (¬Collides p f → codemod.run o' options = .ok o') ∧
      (Collides p f → codemod.checkIdempotent (.empty p) options =
        .error (.differs codemod.name [deprecatedPath])) := by
  obtain ⟨f, hf, L⟩ := leaves_of_run (Overlay.mapError_ok h)
  have hagain : ¬Collides p f → codemod.run o' options = .ok o' := by
    intro hnot
    show (run o' options).mapError _ = _
    rw [L.run_again hf hnot]
    rfl
  have hdiffers : Collides p f → codemod.checkIdempotent (.empty p) options =
      .error (.differs codemod.name [deprecatedPath]) := by
    intro hcollides
    obtain ⟨hdelete, hrun⟩ := L.run_collides hf hcollides
    have htext : (o'.resolve deprecatedPath).text = deprecatedPath := by
      unfold ProjectPath.text
      rw [names_deprecatedPath]
      decide
    have htwice : codemod.run o' options = .ok ((o'.put (o'.resolve deprecatedPath)
        (.add (code f))).forget (o'.resolve deprecatedPath)) := by
      show (run o' options).mapError _ = _
      rw [hrun]
      rfl
    rw [← htext]
    exact Codemod.checkIdempotent_of_one (o'.alters_forget_put _ _).project h htwice
      (differs_iff (L.project ▸ hopen) (by rw [L.project]; exact hcollides.2) hdelete)
  refine ⟨f, hf, ⟨fun hcheck hcollides => ?_, fun hnot => ?_⟩, hagain, hdiffers⟩
  · rw [hdiffers hcollides] at hcheck
    cases hcheck
  · rw [Codemod.checkIdempotent_of_ok rfl h (hagain hnot)]
    exact if_pos ((Overlay.changed_eq_nil_iff rfl).mpr fun _ => rfl)

/-- A feature named so that its module is the deprecated one, of which there is a file. -/
theorem codemod_idempotent_iff_hidden :
    let p : Project := .ofTexts [("src/deprecated.ts", "x")]
    p.IsOpen ∧ ∃ options o',
      codemod.options codemod.name [("featureName", .string "../deprecated")] = .ok options ∧
      codemod.run (.empty p) options = .ok o' ∧
      codemod.checkIdempotent (.empty p) options =
        .error (.differs codemod.name [deprecatedPath]) := by
  intro p
  have hopen : p.IsOpen := Project.isOpen_ofTexts _
  have hrun : ∃ options ∈ (codemod.options codemod.name
      [("featureName", .string "../deprecated")]).toOption,
        ∃ o' ∈ (codemod.run (.empty p) options).toOption,
          ∀ f ∈ (readFeature options).toOption, Collides p f := by decide +kernel
  obtain ⟨options, hoptions, hrun⟩ := Except.exists_ok hrun
  obtain ⟨o', hok, hcollides⟩ := Except.exists_ok hrun
  obtain ⟨f, hf, -, -, hdiffers⟩ := codemod_idempotent_iff hopen hok
  exact ⟨hopen, options, o', hoptions, hok, hdiffers (hcollides f (by rw [hf]; rfl))⟩

end Upkeep.ExampleAddition
