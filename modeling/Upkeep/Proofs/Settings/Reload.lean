/-
Settings that are read as they were recorded.

Recording merges into whatever document is there, member by member, while reading takes the
file as a whole: one part that it cannot take, and the version is lost with the rest.  The
version is merged in last, and so are the recorded flags; what decides is what the document
had under the flags' key before.  A member there that is no truth value stays unless a
recorded flag stands in its place, and something that is no object stays where there is no
flag to record.
-/
import Upkeep.Proofs.Json.RoundTrip
import Upkeep.Proofs.Settings.Reading
import Upkeep.Proofs.Settings.Record

namespace Upkeep

open Json

namespace Settings

variable {s : Settings} {p p' : Project} {document : Entries String Value} {version : String}

/-! ### What is merged -/

/-- No key stands twice in the document, nor in the object that it has for the flags. -/
structure Proper (document : Entries String Value) : Prop where
  distinct : document.Distinct
  features : ∀ members, document.get? "features" = some (.object members) →
    Entries.Distinct members

/-- A document that was read, and an empty one, are proper. -/
theorem proper_oldDocument (h : oldDocument p = .ok document) : Proper document := by
  have hempty : Proper [] := ⟨Entries.distinct_nil, fun members hmembers => by simp at hmembers⟩
  unfold oldDocument at h
  split at h
  next text _ =>
    split at h
    · cases h
      exact hempty
    · cases hread : Json.readMembers text with
      | error problem => simp [hread, Except.mapError] at h
      | ok members =>
          rw [hread] at h
          cases h
          obtain ⟨v, hv, rfl⟩ := readMembers_ok hread
          obtain ⟨t, -, hvalue⟩ := read_ok_iff.mp hv
          cases v with
          | object members =>
              refine ⟨t.distinct_of_value? hvalue, fun inner hinner => ?_⟩
              obtain ⟨u, hu⟩ := t.value?_of_mem hvalue (Entries.mem_of_get? hinner)
              exact u.distinct_of_value? hu
          | _ => exact hempty
  · cases h
    exact hempty

/-- The flags that are put into a document. -/
def flagMembers (s : Settings) : Entries String Value :=
  (sortFlags s.recorded).map fun f => (f.1, .bool f.2)

theorem sortFlags_perm (fs : Flags) : (sortFlags fs).Perm fs := List.mergeSort_perm fs _

theorem distinct_flagMembers (hdistinct : s.recorded.Distinct) : s.flagMembers.Distinct :=
  Entries.Distinct.map (((sortFlags_perm s.recorded).map Prod.fst).nodup_iff.mpr hdistinct) _

theorem get?_flagMembers (hdistinct : s.recorded.Distinct) (flag : String) :
    s.flagMembers.get? flag = (s.recorded.get? flag).map .bool := by
  rw [← Entries.get?_perm (sortFlags_perm s.recorded) hdistinct flag]
  exact Entries.get?_map Value.bool (sortFlags s.recorded) flag

/-- The members of the object that the flags are put into. -/
def oldFlagMembers (document : Entries String Value) : Entries String Value :=
  ((document.get? "features").bind Value.members?).getD []

theorem mergeFlags_eq (s : Settings) (document : Entries String Value) :
    s.mergeFlags (document.get? "features") =
      .object ((oldFlagMembers document).putAll s.flagMembers) := rfl

theorem Proper.distinct_oldFlagMembers (P : Proper document) :
    (oldFlagMembers document).Distinct := by
  unfold oldFlagMembers
  cases hfeatures : document.get? "features" with
  | none => exact Entries.distinct_nil
  | some v =>
      cases v with
      | object members => exact P.features members hfeatures
      | _ => exact Entries.distinct_nil

theorem distinct_mergeInto (P : Proper document) : (s.mergeInto document).Distinct := by
  have hflags : ∀ old : Entries String Value, old.Distinct →
      (if s.recorded = [] then old
        else old.put "features" (s.mergeFlags (old.get? "features"))).Distinct := by
    intro old d
    split
    · exact d
    · exact d.put _ _
  unfold mergeInto
  cases s.version with
  | none => exact hflags _ P.distinct
  | some version => exact hflags _ (P.distinct.put _ _)

theorem get?_mergeInto_version (hversion : s.version = some version) :
    (s.mergeInto document).get? "version" = some (.string version) := by
  unfold mergeInto
  rw [hversion]
  simp only
  split
  · exact Entries.get?_put_self _ _ _
  · rw [Entries.get?_put_of_ne _ _ (by decide)]
    exact Entries.get?_put_self _ _ _

theorem get?_mergeInto_features (s : Settings) (document : Entries String Value) :
    (s.mergeInto document).get? "features" =
      if s.recorded = [] then document.get? "features"
      else some (.object ((oldFlagMembers document).putAll s.flagMembers)) := by
  have hversion : ∀ v, (document.put "version" v).get? "features" = document.get? "features" :=
    fun v => Entries.get?_put_of_ne _ _ (by decide)
  unfold mergeInto
  cases s.version with
  | none =>
      simp only
      split
      · rfl
      · rw [Entries.get?_put_self, mergeFlags_eq]
  | some version =>
      simp only
      split
      · exact hversion _
      · rw [Entries.get?_put_self, hversion, mergeFlags_eq]

theorem proper_mergeInto (P : Proper document) : Proper (s.mergeInto document) := by
  refine ⟨distinct_mergeInto P, fun members hmembers => ?_⟩
  rw [get?_mergeInto_features] at hmembers
  split at hmembers
  · exact P.features members hmembers
  · cases hmembers
    exact P.distinct_oldFlagMembers.putAll _

/-! ### What is read again -/

/-- The flags of a document can be read once the recorded ones are put in: it has none, or
an object in which every member that no recorded flag replaces is a truth value; anything
else under their key has to give way to a recorded flag. -/
def FlagsReadable (s : Settings) (document : Entries String Value) : Prop :=
  match document.get? "features" with
  | none => True
  | some (.object members) => ∀ m ∈ members, s.recorded.has m.1 = true ∨ ∃ b, m.2 = .bool b
  | some _ => s.recorded ≠ []

theorem has_recorded_iff {flag : String} :
    s.recorded.has flag = true ↔ ∃ b, s.recorded.get? flag = some b := by
  unfold Entries.has
  rw [Option.isSome_iff_exists]

theorem isFlags_putAll_iff {members : Entries String Value} (hdistinct : s.recorded.Distinct)
    (d : members.Distinct) :
    SettingsFile.IsFlags (.object (members.putAll s.flagMembers)) ↔
      ∀ m ∈ members, s.recorded.has m.1 = true ∨ ∃ b, m.2 = .bool b := by
  rw [SettingsFile.isFlags_object_iff,
    Entries.forall_mem_iff (d.putAll s.flagMembers) (P := fun _ v => ∃ b, v = .bool b),
    Entries.forall_mem_iff d (P := fun k v => s.recorded.has k = true ∨ ∃ b, v = .bool b)]
  have hget : ∀ k, Entries.get? (members.putAll s.flagMembers) k =
      ((s.recorded.get? k).map Value.bool).or (members.get? k) := by
    intro k
    rw [Entries.get?_putAll (distinct_flagMembers hdistinct), get?_flagMembers hdistinct]
  constructor
  · intro h k v hk
    cases hrecorded : s.recorded.get? k with
    | some b => exact .inl (has_recorded_iff.mpr ⟨b, hrecorded⟩)
    | none => exact .inr (h k v (by rw [hget, hrecorded]; exact hk))
  · intro h k v hk
    rw [hget] at hk
    cases hrecorded : s.recorded.get? k with
    | some b =>
        rw [hrecorded] at hk
        exact ⟨b, (Option.some.inj hk).symm⟩
    | none =>
        rw [hrecorded] at hk
        refine (h k v hk).resolve_left fun hhas => ?_
        obtain ⟨b, hb⟩ := has_recorded_iff.mp hhas
        rw [hrecorded] at hb
        simp at hb

/-- The flags can be read exactly where what is recorded under their key are flags. -/
theorem flagsReadable_iff (hdistinct : s.recorded.Distinct) (P : Proper document) :
    s.FlagsReadable document ↔
      ∀ v, (s.mergeInto document).get? "features" = some v → SettingsFile.IsFlags v := by
  have hsome : ∀ v, (∀ w, some v = some w → SettingsFile.IsFlags w) ↔ SettingsFile.IsFlags v := by
    simp
  rw [get?_mergeInto_features]
  unfold FlagsReadable
  by_cases hrecorded : s.recorded = []
  · rw [if_pos hrecorded, hrecorded]
    cases document.get? "features" with
    | none => simp
    | some v =>
        rw [hsome]
        cases v with
        | object members => simp [SettingsFile.isFlags_object_iff, Entries.has]
        | _ => simp [SettingsFile.IsFlags]
  · rw [if_neg hrecorded, hsome, isFlags_putAll_iff hdistinct P.distinct_oldFlagMembers]
    unfold oldFlagMembers
    cases document.get? "features" with
    | none => simp
    | some v =>
        cases v with
        | object members => rfl
        | _ => simp [hrecorded, Value.members?]

/-- What is read of a file that holds a recorded text. -/
theorem readFile_newText (hversion : s.version = some version) (P : Proper document)
    (hcontent : p.content? recordedPath = some (s.newText document)) :
    readFile p recordedPath =
      (SettingsFile.ofFlagMember? version ((s.mergeInto document).get? "features")).getD {} := by
  unfold readFile newText at *
  rw [hcontent, Option.bind_some,
    SettingsFile.ofText?_pretty (distinct_mergeInto P) (get?_mergeInto_version hversion)]

/-- Where the flags cannot be read, nothing is. -/
theorem readFile_unreadable (hversion : s.version = some version)
    (hdistinct : s.recorded.Distinct) (P : Proper document) (h : ¬s.FlagsReadable document)
    (hcontent : p.content? recordedPath = some (s.newText document)) :
    readFile p recordedPath = {} := by
  rw [flagsReadable_iff hdistinct P] at h
  obtain ⟨v, hv⟩ := not_forall.mp h
  obtain ⟨hfeatures, hflags⟩ := Classical.not_imp.mp hv
  rw [readFile_newText hversion P hcontent, hfeatures,
    SettingsFile.ofFlagMember?_of_not_isFlags hflags, Option.getD_none]

/-- Where they can be read, the version and each recorded flag are. -/
theorem readFile_readable (hversion : s.version = some version)
    (hdistinct : s.recorded.Distinct) (P : Proper document) (h : s.FlagsReadable document)
    (hcontent : p.content? recordedPath = some (s.newText document)) :
    (readFile p recordedPath).version = some version ∧
      (readFile p recordedPath).features.Distinct ∧
        ∀ flag b, s.recorded.get? flag = some b →
          (readFile p recordedPath).features.get? flag = some b := by
  rw [readFile_newText hversion P hcontent]
  have hflags := (flagsReadable_iff hdistinct P).mp h
  cases hfeatures : (s.mergeInto document).get? "features" with
  | none =>
      refine ⟨rfl, Entries.distinct_nil, fun flag b hflag => ?_⟩
      rw [get?_mergeInto_features] at hfeatures
      by_cases hrecorded : s.recorded = []
      · simp [hrecorded] at hflag
      · simp [hrecorded] at hfeatures
  | some v =>
      obtain ⟨flags, rfl⟩ := hflags v hfeatures
      have d : Entries.Distinct flags := by
        have hmembers : Entries.Distinct (flags.map fun f => (f.1, Value.bool f.2)) :=
          (proper_mergeInto P).features _ hfeatures
        unfold Entries.Distinct Entries.keys at hmembers
        rwa [List.map_map] at hmembers
      rw [SettingsFile.ofFlagMember?_flags d, Option.getD_some]
      refine ⟨rfl, d, fun flag b hflag => ?_⟩
      have hrecorded : s.recorded ≠ [] := by
        rintro hnil
        simp [hnil] at hflag
      have hmerged : Entries.get? (flags.map fun f => (f.1, Value.bool f.2)) flag =
          some (.bool b) := by
        rw [get?_mergeInto_features, if_neg hrecorded, Option.some.injEq, Value.object.injEq]
          at hfeatures
        rw [← hfeatures, Entries.get?_putAll (distinct_flagMembers hdistinct),
          get?_flagMembers hdistinct, hflag]
        rfl
      rw [Entries.get?_map] at hmerged
      simpa using hmerged

/-- A recorded flag is in force unless the user overrides it. -/
theorem feature_load {flag : String} {b : Bool}
    (d : (readFile p recordedPath).features.Distinct)
    (hrecorded : (readFile p recordedPath).features.get? flag = some b)
    (huser : (readFile p userPath).features.get? flag = none) : (load p).feature flag = b := by
  have hflag : ((defaultFlags.putAll (readFile p recordedPath).features).putAll
      (readFile p userPath).features).get? flag = some b := by
    rw [Entries.get?_putAll_of_none huser, Entries.get?_putAll d, hrecorded]
    rfl
  unfold feature load
  simp only [hflag, Option.getD_some]

/-- No flag stands twice in what is read of a settings file. -/
theorem distinct_readFile (p : Project) (path : ProjectPath) :
    (readFile p path).features.Distinct := by
  unfold readFile
  cases hfile : (p.content? path).bind SettingsFile.ofText? with
  | none => exact Entries.distinct_nil
  | some file =>
      obtain ⟨text, -, htext⟩ := Option.bind_eq_some_iff.mp hfile
      exact SettingsFile.distinct_ofText? htext

/-- No recorded flag stands twice in settings that were loaded, and setting one keeps that. -/
theorem distinct_load (p : Project) : (load p).recorded.Distinct := distinct_readFile p recordedPath

theorem distinct_setFeature (h : s.recorded.Distinct) (flag : String) (b : Bool) :
    (s.setFeature flag b).recorded.Distinct := h.put flag b

/-- **The settings are read as they were recorded exactly where the flags of the document
can be read.**  Then the version is the one of the settings, and so is each recorded flag
that the user does not override; otherwise not even the version is read.  The store may be
in memory or a disk, and may deny what it likes except for reading the file. -/
theorem record_load_iff (s : Settings) (p p' : Project) (version : String)
    (hversion : s.version = some version) (hdistinct : s.recorded.Distinct)
    (hread : ¬p.store.Denies (recordedPath.locate p.base) .read)
    (hrecord : s.record p = (p', none)) :
    ((load p').version = some version ∧
      ∀ flag b, s.recorded.get? flag = some b →
        (readFile p' userPath).features.get? flag = none → (load p').feature flag = b) ↔
      ∀ document, oldDocument p = .ok document → s.FlagsReadable document := by
  obtain ⟨document, hold, hwrite⟩ := record_ok hrecord
  have hcontent : p'.content? recordedPath = some (s.newText document) :=
    Project.content?_write hread hwrite
  have P : Proper document := proper_oldDocument hold
  constructor
  · rintro ⟨hloaded, -⟩ document' hold'
    obtain rfl : document = document' := Except.ok.inj (hold.symm.trans hold')
    by_contra hunreadable
    have hnothing : (load p').version = (none : Option String) := by
      show (readFile p' recordedPath).version = none
      rw [readFile_unreadable hversion hdistinct P hunreadable hcontent]
    rw [hnothing] at hloaded
    simp at hloaded
  · intro hreadable
    obtain ⟨hloaded, d, hflags⟩ :=
      readFile_readable hversion hdistinct P (hreadable document hold) hcontent
    exact ⟨hloaded, fun flag b hflag huser => feature_load d (hflags flag b hflag) huser⟩

/-- A file that has null for its flags keeps it, and the version that is recorded beside it
is not read. -/
theorem record_load_iff_null :
    let p : Project := .ofTexts
      [(".config/.cprc.json", "\x7b\"version\":\"1.0.0\",\"features\":null\x7d")]
    let s : Settings := { load p with version := some "1.2.0" }
    s.recorded.Distinct ∧ (s.record p).2 = none ∧
      (load (s.record p).1).version ≠ some "1.2.0" := by
  intro p s
  have hrecorded : s.recorded = [] := by decide +kernel
  have hdone : (s.record p).2 = none := by decide +kernel
  have hdistinct : s.recorded.Distinct := distinct_load p
  obtain ⟨hloads, -⟩ := record_load_iff s p (s.record p).1 "1.2.0" rfl hdistinct
    (by decide +kernel) (Prod.ext rfl hdone)
  refine ⟨hdistinct, hdone, fun hversion => ?_⟩
  have hreadable := hloads ⟨hversion, fun flag b hflag => by simp [hrecorded] at hflag⟩
    [("version", .string "1.0.0"), ("features", .null)] (by decide +kernel)
  exact hreadable hrecorded

end Settings

end Upkeep
