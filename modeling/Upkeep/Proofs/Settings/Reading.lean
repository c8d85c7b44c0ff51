/-
What is read of a settings file that was printed.

A settings file is taken as a whole: where its flags are no object of truth values, the
version is lost with them.  For a printed object the reading comes down to two members, the
version and whatever stands under the flags' key.
-/
import Upkeep.Proofs.Entries
import Upkeep.Proofs.Json.Loose
import Upkeep.Settings

namespace Upkeep

open Json

namespace SettingsFile

variable {members : Entries String Value} {v : Value} {flags : Flags}

/-! ### Reading what was printed -/

/-- The value is read as flags: an object of truth values. -/
def IsFlags (v : Value) : Prop := ∃ flags : Flags, v = .object (flags.map fun f => (f.1, .bool f.2))

theorem isFlags_object_iff : IsFlags (.object members) ↔ ∀ m ∈ members, ∃ b, m.2 = .bool b := by
  constructor
  · rintro ⟨flags, hflags⟩ m hm
    cases hflags
    obtain ⟨f, -, rfl⟩ := List.mem_map.mp hm
    exact ⟨f.2, rfl⟩
  · intro h
    induction members with
    | nil => exact ⟨[], rfl⟩
    | cons m members ih =>
        obtain ⟨k, v⟩ := m
        obtain ⟨b, hb⟩ := h (k, v) (by simp)
        obtain ⟨flags, hflags⟩ := ih fun m' hm' => h m' (by simp [hm'])
        cases hflags
        exact ⟨(k, b) :: flags, by rw [List.map_cons, ← hb]⟩

theorem flagOf?_reread (k : String) (v : Value) {f : String × Bool} :
    flagOf? (some k, v.reread) = some f ↔ k = f.1 ∧ v = .bool f.2 := by
  obtain ⟨l, b⟩ := f
  cases v <;> simp [Value.reread, flagOf?]

theorem mapM_flagOf?_reread (members : Entries String Value) (flags : Flags) :
    (members.map fun m => (some m.1, m.2.reread)).mapM flagOf? = some flags ↔
      members = flags.map fun f => (f.1, .bool f.2) := by
  induction members generalizing flags with
  | nil =>
      cases flags with
      | nil => simp
      | cons f fs => simp
  | cons m members ih =>
      obtain ⟨k, v⟩ := m
      rw [List.map_cons, List.mapM_cons]
      constructor
      · intro h
        obtain ⟨f, hf, h⟩ := Option.bind_eq_some_iff.mp h
        obtain ⟨fs, hfs, h⟩ := Option.bind_eq_some_iff.mp h
        cases h
        obtain ⟨rfl, rfl⟩ := (flagOf?_reread k v).mp hf
        rw [List.map_cons, ← (ih fs).mp hfs]
      · intro h
        cases flags with
        | nil => simp at h
        | cons f fs =>
            rw [List.map_cons] at h
            obtain ⟨hm, hms⟩ := List.cons.inj h
            cases hm
            rw [(flagOf?_reread f.1 (.bool f.2)).mpr ⟨rfl, rfl⟩, (ih fs).mpr hms]
            rfl

/-- What was printed under the flags' key is taken only where it is an object of truth
values, and then for what it says. -/
theorem featuresOf?_reread {features : Flags} :
    featuresOf? v.reread = some features ↔
      ∃ flags : Flags, v = .object (flags.map fun f => (f.1, .bool f.2)) ∧
        features = Entries.putAll [] flags := by
  cases v with
  | object members =>
      rw [Value.reread]
      show ((members.map fun m => (some m.1, m.2.reread)).mapM flagOf?).map (Entries.putAll []) =
        some features ↔ _
      rw [Option.map_eq_some_iff]
      constructor
      · rintro ⟨flags, hflags, rfl⟩
        exact ⟨flags, by rw [(mapM_flagOf?_reread members flags).mp hflags], rfl⟩
      · rintro ⟨flags, hmembers, rfl⟩
        cases hmembers
        exact ⟨flags, (mapM_flagOf?_reread _ flags).mpr rfl, rfl⟩
  | _ => simp [Value.reread, featuresOf?]

theorem written_reread (d : members.Distinct) (key : String) :
    written (members.map fun m => (some m.1, m.2.reread)) key =
      ((members.get? key).map Value.reread).toList := by
  induction members with
  | nil => rfl
  | cons m members ih =>
      obtain ⟨k, v⟩ := m
      obtain ⟨hk, d⟩ : k ∉ Entries.keys members ∧ Entries.Distinct members := List.nodup_cons.mp d
      have hcons : written ((some k, v.reread) :: members.map fun m => (some m.1, m.2.reread)) key =
          (if k = key then [v.reread] else []) ++
            written (members.map fun m => (some m.1, m.2.reread)) key := by
        unfold written
        by_cases hkey : k = key
        · simp [hkey]
        · simp [hkey]
      rw [List.map_cons, hcons, ih d]
      by_cases hkey : k = key
      · subst hkey
        simp [Entries.get?, Entries.get?_eq_none_iff.mpr hk]
      · simp [Entries.get?, hkey]

/-- What a printed settings file of this version is read as, by what it has under the flags'
key: nothing where that is no object of truth values. -/
def ofFlagMember? (version : String) : Option Value → Option SettingsFile
  | none => some ⟨some version, []⟩
  | some v => (featuresOf? v.reread).map fun features => ⟨some version, features⟩

theorem ofFlagMember?_of_not_isFlags (h : ¬IsFlags v) (version : String) :
    ofFlagMember? version (some v) = none := by
  have hnone : featuresOf? v.reread = none := by
    refine Option.eq_none_iff_forall_ne_some.mpr fun features hsome => ?_
    obtain ⟨flags, hvalue, -⟩ := featuresOf?_reread.mp hsome
    exact h ⟨flags, hvalue⟩
  rw [ofFlagMember?, hnone, Option.map_none]

theorem ofFlagMember?_flags (d : flags.Distinct) (version : String) :
    ofFlagMember? version (some (.object (flags.map fun f => (f.1, .bool f.2)))) =
      some ⟨some version, flags⟩ := by
  rw [ofFlagMember?, featuresOf?_reread.mpr ⟨flags, rfl, rfl⟩, Option.map_some,
    Entries.putAll_nil_of_distinct d]

/-- The version that is read of what was printed under its key, or of nothing. -/
def versionMember? : Option Value → Option (Option String)
  | none => some none
  | some v => versionOf? v.reread

/-- The flags that are read of what was printed under their key, or of nothing. -/
def featuresMember? : Option Value → Option Flags
  | none => some []
  | some v => featuresOf? v.reread

/-- A printed object is read as a settings file by two of its members. -/
theorem ofText?_printed (d : members.Distinct) :
    ofText? ((Value.object members).pretty ++ "\n") =
      (versionMember? (members.get? "version")).bind fun version =>
        (featuresMember? (members.get? "features")).map fun features => ⟨version, features⟩ := by
  have hkeys : (members.map fun m => ((some m.1, m.2.reread) : Option String × Tree)).all
      (fun m => m.1.isSome) = true := by simp
  unfold ofText?
  rw [readLoose_pretty members (by simp [Reader.Blank, Reader.isGap])]
  show ofMembers? _ = _
  unfold ofMembers?
  rw [written_reread d, written_reread d, hkeys]
  have hfeatures : ∀ (v : Value) (version : Option String),
      ((featuresOf? v.reread).bind fun features => some (⟨version, features⟩ : SettingsFile)) =
        (featuresOf? v.reread).map fun features => ⟨version, features⟩ := by
    intro v version
    cases featuresOf? v.reread <;> rfl
  cases members.get? "version" with
  | none =>
      cases members.get? "features" with
      | none => rfl
      | some v => exact hfeatures v none
  | some u =>
      show (versionOf? u.reread).bind _ = (versionOf? u.reread).bind _
      cases versionOf? u.reread with
      | none => rfl
      | some version =>
          cases members.get? "features" with
          | none => rfl
          | some v => exact hfeatures v version

/-- A printed object that has a version is read as a settings file unless its flags cannot
be read. -/
theorem ofText?_pretty (d : members.Distinct) {version : String}
    (hversion : members.get? "version" = some (.string version)) :
    ofText? ((Value.object members).pretty ++ "\n") =
      ofFlagMember? version (members.get? "features") := by
  have hread : versionMember? (some (.string version)) = some (some version) := by
    show versionOf? (Value.string version).reread = _
    rw [Value.reread]
    rfl
  rw [ofText?_printed d, hversion, hread]
  cases members.get? "features" with
  | none => rfl
  | some v => rfl

/-! ### Flags stand once -/

theorem distinct_featuresOf? {t : Tree} {features : Flags} (h : featuresOf? t = some features) :
    features.Distinct := by
  cases t with
  | object ms =>
      obtain ⟨flags, -, rfl⟩ := Option.map_eq_some_iff.mp h
      exact Entries.distinct_nil.putAll flags
  | _ => simp [featuresOf?] at h

/-- The flags that are read of an object stand under their key, which is written once or not
at all. -/
theorem ofMembers?_some {ms : List (Option String × Tree)} {file : SettingsFile}
    (h : ofMembers? ms = some file) :
    (written ms "features" = [] ∧ file.features = []) ∨
      ∃ t, written ms "features" = [t] ∧ featuresOf? t = some file.features := by
  unfold ofMembers? at h
  obtain ⟨-, -, h⟩ := Option.bind_eq_some_iff.mp h
  rcases hwritten : written ms "features" with _ | ⟨t, _ | ⟨u, ts⟩⟩
  · refine .inl ⟨rfl, ?_⟩
    simp only [hwritten] at h
    split at h
    all_goals
      obtain ⟨version, -, h⟩ := Option.bind_eq_some_iff.mp h
      cases h
      rfl
  · refine .inr ⟨t, rfl, ?_⟩
    simp only [hwritten] at h
    split at h
    all_goals
      obtain ⟨version, -, h⟩ := Option.bind_eq_some_iff.mp h
      obtain ⟨features, hfeatures, h⟩ := Option.bind_eq_some_iff.mp h
      cases h
      exact hfeatures
  · simp only [hwritten] at h
    split at h
    all_goals
      obtain ⟨version, -, h⟩ := Option.bind_eq_some_iff.mp h
      simp at h

/-- Whatever a text holds, no flag stands twice in what is read of it. -/
theorem distinct_ofText? {text : String} {file : SettingsFile} (h : ofText? text = some file) :
    file.features.Distinct := by
  unfold ofText? at h
  split at h
  next ms _ =>
    rcases ofMembers?_some h with ⟨-, hnone⟩ | ⟨t, -, hfeatures⟩
    · rw [hnone]
      exact Entries.distinct_nil
    · exact distinct_featuresOf? hfeatures
  next items _ =>
    unfold ofItems? at h
    split at h
    · obtain ⟨version, -, rfl⟩ := Option.map_eq_some_iff.mp h
      exact Entries.distinct_nil
    · obtain ⟨version, -, h⟩ := Option.bind_eq_some_iff.mp h
      obtain ⟨features, hfeatures, h⟩ := Option.bind_eq_some_iff.mp h
      cases h
      exact distinct_featuresOf? hfeatures
    · simp at h
  next => simp at h

end SettingsFile

end Upkeep
