/-
Flags in a settings file that a loading drops.

A recording merges into whatever document it can read, and does not ask whether the result can
be loaded.  So flags may be recorded one by one in a file that a loading drops: for a version that
is no text, say, or for a member among the flags that is no truth value.  Each recording keeps
the version and puts one flag more in place, and the file is taken up again as soon as every
other member among the flags is a truth value.  Then what it says of other flags counts again as
well.

Between two recordings the document is read from the text of the first one, so it is followed as
far as it decides that: by its version, and by what it says of each flag.
-/
import Upkeep.Proofs.Json.Outline
import Upkeep.Proofs.Settings.Keeping

namespace Upkeep

open Json

namespace Json

/-- The truth value of a document that is one. -/
def Value.bool? : Value → Option Bool
  | .bool b => some b
  | _ => none

theorem Value.bool?_outline (v : Value) : v.outline.bool? = v.bool? := by
  cases v <;> rw [outline] <;> rfl

theorem Value.bool?_eq_none_iff {v : Value} : v.bool? ≠ none ↔ ∃ b, v = .bool b := by
  cases v <;> simp [bool?]

/-- A printed object of a shape that can be read is read as one of the same outline. -/
theorem exists_readMembers_pretty {members : Entries String Value} {gap : String}
    (h : (Value.object members).Shaped Number.InRange Reader.maxDepth)
    (hgap : Reader.Blank gap.toList) :
    ∃ members', readMembers ((Value.object members).pretty ++ gap) = .ok members' ∧
      (Value.object members').outline = (Value.object members).outline := by
  obtain ⟨w, hread, houtline⟩ := h.exists_read_pretty hgap
  cases w with
  | object members' => exact ⟨members', readMembers_of_read hread, houtline⟩
  | _ => simp [Value.outline] at houtline

end Json

namespace Settings

open SettingsFile

variable {s : Settings} {p p₀ : Project} {old document document' : Entries String Value}
  {recorded : Flags}

/-! ### What a document says of flags -/

/-- What a document says of a flag: nothing, that it is on or off, or something else. -/
def flagSaid? (document : Entries String Value) (flag : String) : Option (Option Bool) :=
  ((oldFlagMembers document).get? flag).map Value.bool?

theorem flagSaid?_eq (document : Entries String Value) (flag : String) :
    flagSaid? document flag =
      ((document.get? "features").bind fun v => v.member? flag).map Value.bool? := by
  unfold flagSaid? oldFlagMembers Value.member?
  cases document.get? "features" with
  | none => rfl
  | some v =>
      rw [Option.bind_some, Option.bind_some]
      cases v.members? <;> rfl

/-- The second document has the version of the first, and says of flags what the first says but
for the recorded ones. -/
structure Carries (old : Entries String Value) (recorded : Flags)
    (document : Entries String Value) : Prop where
  version : versionMember? (document.get? "version") = versionMember? (old.get? "version")
  flags : ∀ flag,
    flagSaid? document flag = ((recorded.get? flag).map some).or (flagSaid? old flag)

namespace Carries

theorem refl (document : Entries String Value) : Carries document [] document :=
  ⟨rfl, fun _ => rfl⟩

/-- Both show in the outline. -/
theorem congr (C : Carries old recorded document)
    (h : (Value.object document').outline = (Value.object document).outline) :
    Carries old recorded document' := by
  have hmember : ∀ k, (document'.get? k).map Value.outline = (document.get? k).map Value.outline :=
    Value.member?_congr h
  constructor
  · have hversion : ∀ v?, versionMember? v? = versionMember? (v?.map Value.outline) := by
      rintro (_ | v)
      · rfl
      · show versionOf? v.reread = versionOf? v.outline.reread
        cases v <;> simp [Value.outline, Value.reread, versionOf?, textOf?]
    rw [hversion, hmember, ← hversion]
    exact C.version
  · have hsaid : ∀ (v? : Option Value) (flag : String),
        (v?.bind fun v => v.member? flag).map Value.bool? =
          ((v?.map Value.outline).bind fun v => v.member? flag).map Value.bool? := by
      rintro (_ | v) flag
      · rfl
      · rw [Option.map_some, Option.bind_some, Option.bind_some, Value.member?_outline,
          Option.map_map]
        exact congrArg (Option.map · _) (funext fun w => (Value.bool?_outline w).symm)
    intro flag
    rw [flagSaid?_eq, hsaid, hmember, ← hsaid, ← flagSaid?_eq]
    exact C.flags flag

/-- Flags that are merged in stand for what was said of them. -/
theorem mergeInto (C : Carries old recorded document) (hversion : s.version = none)
    (hdistinct : s.recorded.Distinct) (hrecorded : s.recorded ≠ [])
    (hmore : ∀ flag, s.recorded.get? flag = none → recorded.get? flag = none) :
    Carries old s.recorded (s.mergeInto document) := by
  constructor
  · rw [get?_mergeInto_other s document (by decide), get?_versioned, hversion]
    exact C.version
  · intro flag
    have hsaid : flagSaid? (s.mergeInto document) flag =
        ((s.recorded.get? flag).map some).or (flagSaid? document flag) := by
      unfold flagSaid?
      rw [oldFlagMembers_mergeInto hrecorded, Entries.get?_putAll (distinct_flagMembers hdistinct),
        get?_flagMembers hdistinct]
      cases s.recorded.get? flag <;> rfl
    rw [hsaid]
    cases hflag : s.recorded.get? flag with
    | none =>
        rw [C.flags, hmore flag hflag]
        rfl
    | some b => rfl

end Carries

/-! ### What is loaded of it -/

/-- A printed document with flags is taken if its version is one and each of its flags is on or
off, and then for what it says of them. -/
theorem ofText?_said {members : Entries String Value} (P : Proper document)
    (hfeatures : document.get? "features" = some (.object members)) :
    let loaded := ofText? ((Value.object document).pretty ++ "\n")
    (loaded.isSome = true ↔ (versionMember? (document.get? "version")).isSome = true ∧
      ∀ flag, flagSaid? document flag ≠ some none) ∧
    ∀ file flag, loaded = some file → file.features.get? flag = (flagSaid? document flag).join := by
  intro loaded
  have hmembers : oldFlagMembers document = members := by
    unfold oldFlagMembers
    rw [hfeatures]
    rfl
  have d : members.Distinct := P.features members hfeatures
  have hloaded : loaded = (versionMember? (document.get? "version")).bind fun version =>
      (featuresOf? (Value.object members).reread).map fun features => ⟨version, features⟩ := by
    show ofText? _ = _
    rw [ofText?_printed P.distinct, hfeatures]
    rfl
  have hflags : (featuresOf? (Value.object members).reread).isSome = true ↔
      ∀ flag, flagSaid? document flag ≠ some none := by
    have hsome : (featuresOf? (Value.object members).reread).isSome = true ↔
        IsFlags (.object members) := by
      rw [Option.isSome_iff_exists]
      simp only [featuresOf?_reread]
      exact ⟨fun ⟨_, flags, hflags, _⟩ => ⟨flags, hflags⟩,
        fun ⟨flags, hflags⟩ => ⟨_, flags, hflags, rfl⟩⟩
    rw [hsome, isFlags_object_iff, Entries.forall_mem_iff d (P := fun _ v => ∃ b, v = .bool b)]
    unfold flagSaid?
    rw [hmembers]
    refine forall_congr' fun flag => ?_
    cases members.get? flag with
    | none => simp
    | some v => simpa [eq_comm] using Value.bool?_eq_none_iff.symm
  refine ⟨?_, fun file flag hfile => ?_⟩
  · rw [hloaded, ← hflags]
    cases versionMember? (document.get? "version") <;> simp
  · rw [hloaded] at hfile
    obtain ⟨version, -, hfile⟩ := Option.bind_eq_some_iff.mp hfile
    obtain ⟨features, hread, rfl⟩ := Option.map_eq_some_iff.mp hfile
    obtain ⟨flags, hobject, rfl⟩ := featuresOf?_reread.mp hread
    cases hobject
    have dflags : Entries.Distinct flags := by
      unfold Entries.Distinct Entries.keys at d
      rwa [List.map_map] at d
    unfold flagSaid?
    rw [hmembers, Entries.get?_map, Entries.putAll_nil_of_distinct dflags]
    show Entries.get? flags flag = _
    cases Entries.get? flags flag <;> rfl

/-- Recorded flags can be read where each flag is recorded or said to be on or off. -/
theorem flagsReadable_iff_said (hrecorded : s.recorded ≠ []) (P : Proper document) :
    s.FlagsReadable document ↔
      ∀ flag, ((s.recorded.get? flag).map some).or (flagSaid? document flag) ≠ some none := by
  have hmembers : s.FlagsReadable document ↔
      ∀ m ∈ oldFlagMembers document, s.recorded.has m.1 = true ∨ ∃ b, m.2 = .bool b := by
    unfold FlagsReadable oldFlagMembers
    cases document.get? "features" with
    | none => simp
    | some v => cases v <;> simp [hrecorded, Value.members?]
  rw [hmembers, Entries.forall_mem_iff P.distinct_oldFlagMembers
    (P := fun k v => s.recorded.has k = true ∨ ∃ b, v = .bool b)]
  refine forall_congr' fun flag => ?_
  unfold flagSaid? Entries.has
  cases s.recorded.get? flag with
  | some b => simp
  | none =>
      cases (oldFlagMembers document).get? flag with
      | none => simp
      | some v => simpa using Value.bool?_eq_none_iff.symm

/-! ### Recordings in a file that is dropped -/

/-- With the flags recorded in it the settings file can be loaded: it may be read, its version is
one, and each of its flags that is not recorded is on or off. -/
def TakenUp (s : Settings) (p : Project) : Prop :=
  ¬p.store.Denies (recordedPath.locate p.base) .read ∧ s.recorded ≠ [] ∧
    ∃ document, oldDocument p = .ok document ∧
      (versionMember? (document.get? "version")).isSome = true ∧ s.FlagsReadable document

/-- The settings file of a project after flags were recorded there, and before it was another
project. -/
inductive FileAfter (p₀ : Project) (old : Entries String Value) (recorded : Flags)
    (p : Project) : Prop where
  | denied (hdenied : p₀.store.Denies (recordedPath.locate p₀.base) .read)
      (hcontent : p.content? recordedPath = none)
  | untouched (hread : ¬p₀.store.Denies (recordedPath.locate p₀.base) .read)
      (hnone : recorded = []) (hcontent : p.content? recordedPath = p₀.content? recordedPath)
  | written {document members : Entries String Value}
      (hread : ¬p₀.store.Denies (recordedPath.locate p₀.base) .read) (hsome : recorded ≠ [])
      (hcontent : p.content? recordedPath = some ((Value.object document).pretty ++ "\n"))
      (C : Carries old recorded document) (P : Proper document)
      (hshaped : (Value.object document).Shaped Number.InRange Reader.maxDepth)
      (hfeatures : document.get? "features" = some (.object members))

/-- What a recording starts from keeps to the levels, with numbers in range. -/
theorem shaped_oldDocument (h : oldDocument p = .ok document) :
    (Value.object document).Shaped Number.InRange Reader.maxDepth := by
  unfold oldDocument at h
  split at h
  next text _ =>
    split at h
    · cases h
      exact .empty
    · cases hread : readMembers text with
      | error problem => simp [hread, Except.mapError] at h
      | ok members =>
          rw [hread] at h
          cases h
          exact inRange_of_read (read_of_readMembers hread)
  · cases h
    exact .empty

namespace FileAfter

/-- What is read of the file is all that counts. -/
theorem congr {p' : Project} (F : FileAfter p₀ old recorded p)
    (h : p'.content? recordedPath = p.content? recordedPath) : FileAfter p₀ old recorded p' := by
  cases F with
  | denied hdenied hcontent => exact .denied hdenied (h.trans hcontent)
  | untouched hread hnone hcontent => exact .untouched hread hnone (h.trans hcontent)
  | written hread hsome hcontent C P hshaped hfeatures =>
      exact .written hread hsome (h.trans hcontent) C P hshaped hfeatures

/-- Between recordings the document that the file holds has not changed its bearing. -/
theorem exists_oldDocument (F : FileAfter p₀ old recorded p) (hold : oldDocument p₀ = .ok old)
    (hread : ¬p₀.store.Denies (recordedPath.locate p₀.base) .read) (hbase : p.base = p₀.base) :
    ∃ document, oldDocument p = .ok document ∧ Carries old recorded document := by
  cases F with
  | denied hdenied => exact absurd hdenied hread
  | untouched _ hnone hcontent =>
      refine ⟨old, ?_, hnone ▸ .refl old⟩
      unfold oldDocument
      rw [hcontent, hbase]
      exact hold
  | @written document _ _ _ hcontent C _ hshaped _ =>
      have hgap : Reader.Blank "\n".toList := by simp [Reader.Blank, Reader.isGap]
      obtain ⟨document', hdocument', houtline⟩ := exists_readMembers_pretty hshaped hgap
      have hholds : HoldsDocument p document' := .text hcontent hdocument'
      exact ⟨document', hholds.oldDocument_eq, C.congr houtline⟩

/-- A recording finds a document to start from. -/
theorem oldDocument_ok (F : FileAfter p₀ old recorded p) (hold : oldDocument p₀ = .ok old)
    (hbase : p.base = p₀.base) : ∃ document, oldDocument p = .ok document := by
  by_cases hread : p₀.store.Denies (recordedPath.locate p₀.base) .read
  · cases F with
    | denied _ hcontent => exact ⟨[], by unfold oldDocument; rw [hcontent]⟩
    | untouched hopen => exact absurd hread hopen
    | written hopen => exact absurd hread hopen
  · obtain ⟨document, hdocument, -⟩ := F.exists_oldDocument hold hread hbase
    exact ⟨document, hdocument⟩

/-- One flag more is recorded. -/
theorem record {closed : List (List Component × Access)} {p' : Project} {flag : String}
    (F : FileAfter p₀ old s.recorded p) (hold : oldDocument p₀ = .ok old)
    (hmemory₀ : p₀.InMemory closed) (hmemory : p.InMemory closed) (hbase : p.base = p₀.base)
    (hversion : s.version = none) (hdistinct : s.recorded.Distinct)
    (h : (s.setFeature flag true).record p = (p', none)) :
    FileAfter p₀ old (s.setFeature flag true).recorded p' := by
  have hdenies : p.store.Denies (recordedPath.locate p.base) .read ↔
      p₀.store.Denies (recordedPath.locate p₀.base) .read := by
    rw [hbase]
    exact hmemory₀.denies_iff hmemory _ _
  obtain ⟨document, hdocument, hwrite⟩ := record_ok h
  by_cases hread : p₀.store.Denies (recordedPath.locate p₀.base) .read
  · refine .denied hread ?_
    have hmemory' : p'.InMemory closed := by
      have hwritten := hmemory.write recordedPath ((s.setFeature flag true).newText document)
      rwa [hwrite] at hwritten
    have hbase' := (Project.held_write hwrite).1
    have hcontent := hmemory'.content?_eq recordedPath
    have hdenied := (hmemory.denies_iff hmemory' _ _).mpr (hbase'.symm ▸ hdenies.mpr hread)
    rw [if_pos hdenied] at hcontent
    simpa using hcontent
  · obtain ⟨document', hdocument', C⟩ := F.exists_oldDocument hold hread hbase
    cases hdocument.symm.trans hdocument'
    have hget : ∀ other, (s.setFeature flag true).recorded.get? other =
        if flag = other then some true else s.recorded.get? other := fun other =>
      Entries.get?_put s.recorded flag true other
    have hsome : (s.setFeature flag true).recorded ≠ [] := by
      intro hnil
      have hflag := hget flag
      rw [hnil, if_pos rfl] at hflag
      cases hflag
    have hmore : ∀ other, (s.setFeature flag true).recorded.get? other = none →
        s.recorded.get? other = none := by
      intro other hother
      rw [hget] at hother
      split at hother
      · cases hother
      · exact hother
    have P := proper_oldDocument hdocument
    have hcontent := Project.content?_write (hdenies.not.mpr hread) hwrite
    have hmerged := get?_mergeInto_features (s.setFeature flag true) document
    rw [if_neg hsome] at hmerged
    exact .written hread hsome hcontent
      (C.mergeInto hversion (distinct_setFeature hdistinct flag true) hsome hmore)
      (proper_mergeInto P) (shaped_mergeInto (shaped_oldDocument hdocument)) hmerged

/-- What is loaded of the file: what was recorded and what it said before, if it is taken up, and
nothing if it is not. -/
theorem readFile (F : FileAfter p₀ old s.recorded p) (hold : oldDocument p₀ = .ok old)
    (hnothing : readFile p₀ recordedPath = {}) :
    (s.TakenUp p₀ → ∀ flag, (Settings.readFile p recordedPath).features.get? flag =
      (((s.recorded.get? flag).map some).or (flagSaid? old flag)).join) ∧
    (¬s.TakenUp p₀ → Settings.readFile p recordedPath = {}) := by
  cases F with
  | denied hdenied hcontent =>
      refine ⟨fun htaken => absurd hdenied htaken.1, fun _ => ?_⟩
      unfold Settings.readFile
      rw [hcontent]
      rfl
  | untouched _ hnone hcontent =>
      refine ⟨fun htaken => absurd hnone htaken.2.1, fun _ => ?_⟩
      rw [← hnothing]
      unfold Settings.readFile
      rw [hcontent]
  | @written document members hread hsome hcontent C P _ hfeatures =>
      obtain ⟨htaken, hflags⟩ := ofText?_said P hfeatures
      have hiff : s.TakenUp p₀ ↔
          (ofText? ((Value.object document).pretty ++ "\n")).isSome = true := by
        rw [htaken, C.version]
        simp only [C.flags]
        rw [← flagsReadable_iff_said hsome (proper_oldDocument hold)]
        constructor
        · rintro ⟨-, -, old', hold', hversion, hreadable⟩
          cases hold.symm.trans hold'
          exact ⟨hversion, hreadable⟩
        · rintro ⟨hversion, hreadable⟩
          exact ⟨hread, hsome, old, hold, hversion, hreadable⟩
      unfold Settings.readFile
      rw [hcontent, Option.bind_some, hiff]
      refine ⟨fun hsome flag => ?_, fun hnone => ?_⟩
      · obtain ⟨file, hfile⟩ := Option.isSome_iff_exists.mp hsome
        rw [hfile, Option.getD_some, hflags file flag hfile, C.flags]
      · rw [Option.not_isSome_iff_eq_none.mp hnone]
        rfl

end FileAfter

end Settings

end Upkeep
