/-
The parts of the example addition.

The addition works on five files in turn, and what one part leaves is what it looks for when it
comes again: the manifest has the script and the dependency, the module is there, the
deprecated module is gone, and the old configuration has its new name or keeps the old one.
For each part there is one lemma that says which files it changes and that it leaves them so,
and one that says that it does nothing where they are so already.

The name of a feature goes into a path as it is.  Whatever it is, the module is a file of
TypeScript, and so neither the manifest nor a configuration.
-/
import Upkeep.Proofs.Manifest.Rewritten
import Upkeep.Proofs.Registry.Settled
import Upkeep.Registry.ExampleAddition

namespace Upkeep.ExampleAddition

open Json (Value)
open Manifest (requests)

variable {o o' : Overlay} {f : Feature} {paths : List ProjectPath}

/-! ### The paths -/

/-- What stands behind the last separator grows by what has none in it. -/
theorem exists_splitOn_append {sep : Char} {ds : List Char} (h : sep ∉ ds) (cs : List Char) :
    ∃ front last, (cs ++ ds).splitOn sep = front ++ [last ++ ds] := by
  induction cs with
  | nil =>
      have hone : ([sep].intercalate [ds]).splitOn sep = [ds] :=
        List.splitOn_intercalate sep (by simpa using h) (by simp)
      exact ⟨[], [], by simpa using hone⟩
  | cons c cs ih =>
      obtain ⟨front, last, hsplit⟩ := ih
      rw [List.cons_append, List.splitOn_cons_eq_if_modifyHead, hsplit]
      split
      · exact ⟨[] :: front, last, rfl⟩
      · cases front with
        | nil => exact ⟨[], c :: last, rfl⟩
        | cons first front => exact ⟨(c :: first) :: front, last, rfl⟩

theorem toList_modulePath (name : String) :
    (modulePath name).toList = "src/features/".toList ++ name.toList ++ ".ts".toList := by
  unfold modulePath
  rw [String.toList_append, String.toList_append]
  rfl

theorem isRelative_modulePath (name : String) :
    ProjectPath.IsRelative (modulePath name).toList := by
  intro c hc
  rw [toList_modulePath] at hc
  cases hc
  decide

/-- However the feature is named, its module is a file of TypeScript. -/
theorem exists_names_modulePath (o : Overlay) (name : String) :
    ∃ front stem, (o.resolve (modulePath name)).names =
      front ++ [String.ofList (stem ++ ".ts".toList)] := by
  have hunify : ProjectPath.unify (modulePath name) =
      "src/features/".toList ++ ProjectPath.unify name ++ ".ts".toList := by
    unfold ProjectPath.unify
    rw [toList_modulePath, List.map_append, List.map_append]
    rfl
  have hending : '/' ∉ ".ts".toList := by decide
  obtain ⟨front, stem, hsplit⟩ :=
    exists_splitOn_append hending ("src/features/".toList ++ ProjectPath.unify name)
  have hname : Component.ofPart? (stem ++ ".ts".toList) =
      some (.name (String.ofList (stem ++ ".ts".toList))) := by
    have hne : ∀ part : List Char, part.length < 3 → stem ++ ".ts".toList ≠ part := by
      rintro part hpart rfl
      simp at hpart
    unfold Component.ofPart?
    rw [if_neg (not_or.mpr ⟨hne _ (by decide), hne _ (by decide)⟩), if_neg (hne _ (by decide))]
  have hparts : ProjectPath.parts (modulePath name).toList =
      Path.ofParts front ++ [.name (String.ofList (stem ++ ".ts".toList))] := by
    unfold ProjectPath.parts
    rw [String.ofList_toList, hunify, hsplit, Path.ofParts_append]
    unfold Path.ofParts
    rw [List.filterMap_cons_some hname, List.filterMap_nil]
  refine ⟨ProjectPath.follow (Path.ofParts front), stem, ?_⟩
  refine Overlay.names_resolve ⟨isRelative_modulePath name, ?_⟩ o
  rw [hparts]
  unfold ProjectPath.follow
  rw [List.foldl_append, List.foldl_cons, List.foldl_nil, ProjectPath.step]

/-- It is no file whose name ends otherwise. -/
theorem modulePath_ne {s : String} {names : List String} (hs : (o.resolve s).names = names)
    (hending : (names.getLast?.bind fun n => n.toList.getLast?) ≠ some 's') (name : String) :
    o.resolve (modulePath name) ≠ o.resolve s := by
  intro heq
  obtain ⟨front, stem, hnames⟩ := exists_names_modulePath o name
  rw [heq, hs] at hnames
  rw [hnames, List.getLast?_concat, Option.bind_some, String.toList_ofList,
    List.getLast?_append] at hending
  exact hending rfl

theorem names_deprecatedPath (o : Overlay) :
    (o.resolve deprecatedPath).names = ["src", "deprecated.ts"] :=
  Overlay.names_resolve (by decide) o

theorem names_oldConfigPath (o : Overlay) :
    (o.resolve oldConfigPath).names = ["src", "old-config.json"] :=
  Overlay.names_resolve (by decide) o

theorem names_configPath (o : Overlay) :
    (o.resolve configPath).names = ["src", "new-config.json"] :=
  Overlay.names_resolve (by decide) o

/-! ### The manifest -/

/-- The scripts of the manifest, if it has any, have that of the example. -/
def HasScript (manifest : Value) : Prop :=
  ∀ scripts, (manifest.member? "scripts").bind Value.members? = some scripts →
    Entries.has scripts scriptName = true

theorem withScript?_of_hasScript {manifest : Value} (h : HasScript manifest) (name : String) :
    withScript? manifest name = none := by
  unfold withScript?
  cases hscripts : (manifest.member? "scripts").bind Value.members? with
  | none => rfl
  | some scripts => exact if_pos (h scripts hscripts)

/-- A manifest that gets the script keeps its shape, and has the script then. -/
theorem withScript?_cases (manifest : Value) (name : String) :
    (HasScript manifest ∧ withScript? manifest name = none) ∨
    ∃ after, withScript? manifest name = some after ∧ HasScript after ∧
      ∀ P room, manifest.Shaped P (room + 2) → after.Shaped P (room + 2) := by
  by_cases h : HasScript manifest
  · exact .inl ⟨h, withScript?_of_hasScript h name⟩
  · unfold HasScript at h
    push Not at h
    obtain ⟨scripts, hscripts, hlacking⟩ := h
    obtain ⟨v, hmember, hv⟩ := Option.bind_eq_some_iff.mp hscripts
    obtain ⟨members, hmembers, hget⟩ := Option.bind_eq_some_iff.mp hmember
    obtain rfl := Value.eq_object hmembers
    obtain rfl := Value.eq_object hv
    obtain ⟨script, hscript⟩ : ∃ script, script =
      Value.string ("echo \"Running " ++ name ++ "\"") := ⟨_, rfl⟩
    refine .inr ⟨.object (members.put "scripts" (.object (scripts.put scriptName script))),
      ?_, ?_, ?_⟩
    · unfold withScript?
      rw [hscripts]
      show (if Entries.has scripts scriptName = true then none else some _) = _
      rw [if_neg hlacking, Value.updateMember_object hget, hscript]
    · intro scripts' hscripts'
      simp [Value.member?, Value.members?] at hscripts'
      subst hscripts'
      simp [Entries.has]
    · intro P room hshaped
      exact hshaped.put _ ((hshaped.get? hget).put _ (hscript ▸ .string _))

/-- Whether the scripts have that of the example shows in the outline. -/
theorem HasScript.of_outline {manifest manifest' : Value} (h : HasScript manifest)
    (houtline : (manifest'.member? "scripts").map Value.outline =
      (manifest.member? "scripts").map Value.outline) : HasScript manifest' := by
  intro scripts' hscripts'
  obtain ⟨v', hv', hmembers'⟩ := Option.bind_eq_some_iff.mp hscripts'
  rw [hv'] at houtline
  obtain ⟨v, hv, hsame⟩ := Option.map_eq_some_iff.mp houtline.symm
  have hmembers := congrArg Value.members? hsame
  rw [Value.members?_outline, Value.members?_outline, hmembers'] at hmembers
  obtain ⟨scripts, hscripts, hkeys⟩ := Option.map_eq_some_iff.mp hmembers
  have hget := congrArg (Entries.get? · scriptName) hkeys
  simp only [Entries.get?_map] at hget
  have hhas := h scripts (by rw [hv]; exact hscripts)
  unfold Entries.has at hhas ⊢
  rw [← Option.isSome_map, ← hget, Option.isSome_map]
  exact hhas

/-- The packages that are asked for, for development. -/
def packages : List (String × String) := [("@types/node", "^20.0.0")]

/-- There is no manifest, or it has what the addition puts in. -/
def Prepared (o : Overlay) : Prop :=
  o.has Manifest.path = false ∨ ∃ manifest, o.readDocument Manifest.path = .ok manifest ∧
    HasScript manifest ∧ ∀ r ∈ requests [] packages,
      Manifest.Declared.Settled (Manifest.Declared.ofManifest manifest) r

theorem Prepared.congr (h : Prepared o) (A : o.Alters paths o')
    (hpath : o.resolve Manifest.path ∉ paths) : Prepared o' := by
  unfold Prepared
  rw [A.has hpath, A.readDocument hpath]
  exact h

theorem editManifest_of_prepared (h : Prepared o) (f : Feature) : editManifest o f = .ok o := by
  unfold editManifest
  rcases h with hlacking | ⟨manifest, hread, hscript, hsettled⟩
  · rw [if_pos (by simp [hlacking])]
  · rw [hread]
    split
    · rfl
    · simp only [bind, Except.bind]
      rw [withScript?_of_hasScript hscript]
      exact Manifest.addDependencies_of_settled hread hsettled

/-- **An edited manifest is prepared**, and nothing else has changed. -/
theorem editManifest_ok (h : editManifest o f = .ok o') :
    o.Alters [o.resolve Manifest.path] o' ∧ Prepared o' := by
  unfold editManifest at h
  split at h
  next hlacking =>
    cases h
    exact ⟨.refl o _, .inl (by simpa using hlacking)⟩
  next =>
    obtain ⟨manifest, hread, h⟩ := Except.bind_ok h
    obtain ⟨o₁, manifest₁, A₁, hread₁, hscript₁, hadd⟩ : ∃ o₁ manifest₁,
        o.Alters [o.resolve Manifest.path] o₁ ∧ o₁.readDocument Manifest.path = .ok manifest₁ ∧
          HasScript manifest₁ ∧ Manifest.addDependencies o₁ [] packages = .ok o' := by
      obtain ⟨hhas, hnone⟩ | ⟨after, hsome, hhas, hshaped⟩ :=
        withScript?_cases manifest f.featureName
      · simp only [hnone] at h
        exact ⟨o, manifest, .refl o _, hread, hhas, h⟩
      · simp only [hsome] at h
        obtain ⟨o₁, hwrite, hadd⟩ := Except.bind_ok h
        obtain ⟨manifest₁, hread₁, houtline⟩ := Overlay.exists_readDocument_of_write
          (hshaped _ 125 (Overlay.shaped_of_readDocument hread)) hwrite
        exact ⟨o₁, manifest₁, Overlay.alters_writeDocument hwrite, hread₁,
          hhas.of_outline (Value.member?_congr houtline "scripts"), hadd⟩
    obtain ⟨manifest', hread', hsettled, hbeside⟩ := Manifest.readDocument_addDependencies hread₁
      hadd (Manifest.sound_requests (by decide)) (by decide)
    have A := Manifest.alters_addDependencies hadd
    rw [A₁.resolve] at A
    have hkey : Manifest.Beside "scripts" := by
      intro s
      cases s <;> decide
    exact ⟨A₁.trans A, .inr ⟨manifest', hread', hscript₁.of_outline (hbeside _ hkey), hsettled⟩⟩

/-! ### The module and the deprecated one -/

theorem addModule_of_has (h : o.has (modulePath f.featureName) = true) : addModule o f = .ok o :=
  if_pos h

theorem addModule_of_lacking (h : o.has (modulePath f.featureName) = false) :
    addModule o f = .ok (o.put (o.resolve (modulePath f.featureName)) (.add (code f))) := by
  unfold addModule Overlay.add Overlay.addAt
  unfold Overlay.has at h ⊢
  rw [h]
  rfl

/-- Where there is no module it is added; in any case there is one then. -/
theorem addModule_ok (h : addModule o f = .ok o') :
    o.Alters [o.resolve (modulePath f.featureName)] o' ∧
      o'.has (modulePath f.featureName) = true := by
  cases hhas : o.has (modulePath f.featureName) with
  | true =>
      rw [addModule_of_has hhas] at h
      cases h
      exact ⟨.refl o _, hhas⟩
  | false =>
      unfold addModule at h
      rw [hhas] at h
      have hadd := Overlay.mapError_ok h
      have W := Overlay.add_ok hadd
      refine ⟨Overlay.alters_add hadd, Overlay.hasAt_of_contentAt? ?_
        (show o'.content? (modulePath f.featureName) = some (code f) by
          rw [W.content?, if_pos rfl])⟩
      obtain ⟨front, stem, hnames⟩ := exists_names_modulePath o' f.featureName
      simp [hnames]

theorem deleteDeprecated_of_lacking (h : o.has deprecatedPath = false) :
    deleteDeprecated o = .ok o := by
  unfold deleteDeprecated
  rw [h]
  rfl

/-- Where nothing is pending for it, the deprecated module is gone then. -/
theorem deleteDeprecated_ok (hnone : o.record? (o.resolve deprecatedPath) = none)
    (h : deleteDeprecated o = .ok o') :
    o.Alters [o.resolve deprecatedPath] o' ∧ o'.has deprecatedPath = false := by
  cases hhas : o.has deprecatedPath with
  | false =>
      rw [deleteDeprecated_of_lacking hhas] at h
      cases h
      exact ⟨.refl o _, hhas⟩
  | true =>
      unfold deleteDeprecated at h
      rw [if_pos hhas] at h
      have hdelete := Overlay.mapError_ok h
      refine ⟨Overlay.alters_delete hdelete, ?_⟩
      obtain ⟨⟨d, hadd⟩, -⟩ | ⟨-, rfl⟩ := Overlay.deleteAt_ok hdelete
      · rw [hnone] at hadd
        cases hadd
      · exact Overlay.has_put .delete rfl

/-- A module that is the deprecated one is taken out by forgetting that it was put in. -/
theorem deleteDeprecated_of_added
    (hmodule : o.resolve (modulePath f.featureName) = o.resolve deprecatedPath)
    (hlacking : o.has deprecatedPath = false) :
    (addModule o f >>= deleteDeprecated) =
      .ok ((o.put (o.resolve deprecatedPath) (.add (code f))).forget
        (o.resolve deprecatedPath)) := by
  have hmodulelacking : o.has (modulePath f.featureName) = false := by
    unfold Overlay.has at hlacking ⊢
    rwa [hmodule]
  rw [addModule_of_lacking hmodulelacking, hmodule]
  show deleteDeprecated (o.put _ _) = _
  unfold deleteDeprecated
  rw [Overlay.has_put (.add (code f)) rfl]
  unfold Overlay.delete Overlay.deleteAt
  rw [Overlay.resolve_of_project (Overlay.put_project _), Overlay.record?_put, if_pos rfl]
  rfl

/-! ### The configuration -/

/-- The old configuration keeps its name. -/
def Renamed (o : Overlay) : Prop := (o.has oldConfigPath && !o.has configPath) = false

theorem renameConfig_of_renamed (h : Renamed o) : renameConfig o = .ok o := by
  unfold renameConfig
  rw [h]
  rfl

theorem Renamed.congr (h : Renamed o) (A : o.Alters paths o')
    (hold : o.resolve oldConfigPath ∉ paths) (hnew : o.resolve configPath ∉ paths) :
    Renamed o' := by
  unfold Renamed
  rw [A.has hold, A.has hnew]
  exact h

theorem renameConfig_ok (h : renameConfig o = .ok o') :
    o.Alters [o.resolve oldConfigPath, o.resolve configPath] o' ∧ Renamed o' := by
  by_cases hrenamed : Renamed o
  · rw [renameConfig_of_renamed hrenamed] at h
    cases h
    exact ⟨.refl o _, hrenamed⟩
  · unfold renameConfig at h
    rw [if_pos (by simpa [Renamed] using hrenamed)] at h
    have hrename := Overlay.mapError_ok h
    have A := Overlay.alters_rename hrename
    refine ⟨A, ?_⟩
    obtain ⟨content, o₁, -, -, -, hadd⟩ := Overlay.renameAt_ok hrename
    obtain ⟨-, rfl⟩ := Overlay.addAt_ok hadd
    have hhas : (o₁.put (o.resolve configPath) (.add content)).has configPath = true :=
      Overlay.has_put (.add content) (A.resolve configPath)
    unfold Renamed
    rw [hhas]
    simp

end Upkeep.ExampleAddition
