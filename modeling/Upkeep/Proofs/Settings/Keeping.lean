/-
What recording the settings keeps of their file.

The flags in force and the flags for the record are changed side by side, from loading on, and
only the latter get into the file: what the file said itself, and what was set since.  They are
merged into the document that is there.  Its keys keep their places, and of its values only
the version and the flags can change; among the flags, members that are no recorded flag stay.
A document that was merged once is left as it is by merging again, so a second recording writes
the same text.
-/
import Upkeep.Proofs.Json.Edit
import Upkeep.Proofs.Settings.Legible

namespace Upkeep

open Json

namespace Json

/-- What is read of a printed object is read as its members. -/
theorem readMembers_of_read {members members' : Entries String Value} {gap : String}
    (h : read ((Value.object members).pretty ++ gap) = .ok (.object members')) :
    readMembers ((Value.object members).pretty ++ gap) = .ok members' := by
  have hbrace : ∃ r,
      Reader.skipGap ((Value.object members).pretty ++ gap).toList = '\x7b' :: r := by
    unfold Value.pretty
    rw [String.toList_append, String.toList_ofList]
    cases members with
    | nil => exact ⟨_, rfl⟩
    | cons m members => exact ⟨_, Reader.skipGap_cons (by decide) _⟩
  obtain ⟨r, hbrace⟩ := hbrace
  unfold read at h
  unfold readMembers
  simp only
  rw [hbrace]
  cases hchars : readChars ((Value.object members).pretty ++ gap).toList with
  | error stop =>
      rw [hchars] at h
      cases h
  | ok v =>
      rw [hchars] at h
      cases h
      rfl

/-- The members of a readable object are read back from its printed text. -/
theorem readMembers_pretty {members : Entries String Value} {gap : String}
    (h : (Value.object members).Readable Reader.maxDepth) (hgap : Reader.Blank gap.toList) :
    readMembers ((Value.object members).pretty ++ gap) = .ok members :=
  readMembers_of_read (h.read_pretty hgap)

end Json

namespace Settings

/-! ### Settings that were changed -/

/-- A change of loaded settings: a flag is set, or the version. -/
inductive Edit where
  | flag (name : String) (enabled : Bool)
  | version (version : Option String)

namespace Edit

/-- What a change sets the flag to, if it does. -/
def flag? (name : String) : Edit → Option Bool
  | .flag other enabled => if other = name then some enabled else none
  | .version _ => none

/-- What a change sets the version to, if it does. -/
def version? : Edit → Option (Option String)
  | .flag _ _ => none
  | .version v => some v

end Edit

variable {s : Settings} {p p' : Project} {document : Entries String Value}

/-- The settings after a change. -/
def edit (s : Settings) : Edit → Settings
  | .flag name enabled => s.setFeature name enabled
  | .version version => { s with version }

/-- The settings after changes, one by one. -/
def edited (s : Settings) (edits : List Edit) : Settings := edits.foldl edit s

theorem get?_recorded_edit (s : Settings) (e : Edit) (name : String) :
    (s.edit e).recorded.get? name = (e.flag? name).or (s.recorded.get? name) := by
  cases e with
  | flag other enabled =>
      show (s.recorded.put other enabled).get? name =
        (if other = name then some enabled else none).or (s.recorded.get? name)
      rw [Entries.get?_put]
      split <;> rfl
  | version => rfl

theorem version_edit (s : Settings) (e : Edit) :
    (s.edit e).version = e.version?.getD s.version := by
  cases e <;> rfl

/-- A flag for the record is the one that was set last, or the one of before. -/
theorem get?_recorded_edited (s : Settings) (edits : List Edit) (name : String) :
    (s.edited edits).recorded.get? name =
      (edits.filterMap (Edit.flag? name)).getLast?.or (s.recorded.get? name) := by
  induction edits generalizing s with
  | nil => rfl
  | cons e edits ih =>
      show ((s.edit e).edited edits).recorded.get? name = _
      rw [ih, get?_recorded_edit, List.filterMap_cons]
      cases e.flag? name with
      | none => rfl
      | some enabled =>
          rw [List.getLast?_cons]
          cases (edits.filterMap (Edit.flag? name)).getLast? <;> rfl

/-- The version is the one that was set last, or the one of before. -/
theorem version_edited (s : Settings) (edits : List Edit) :
    (s.edited edits).version = (edits.filterMap Edit.version?).getLast?.getD s.version := by
  induction edits generalizing s with
  | nil => rfl
  | cons e edits ih =>
      show ((s.edit e).edited edits).version = _
      rw [ih, version_edit, List.filterMap_cons]
      cases e.version? with
      | none => rfl
      | some version =>
          rw [List.getLast?_cons]
          cases (edits.filterMap Edit.version?).getLast? <;> rfl

theorem distinct_edited (h : s.recorded.Distinct) (edits : List Edit) :
    (s.edited edits).recorded.Distinct := by
  induction edits generalizing s with
  | nil => exact h
  | cons e edits ih =>
      refine ih ?_
      cases e with
      | flag name enabled => exact distinct_setFeature h name enabled
      | version => exact h

/-- The last value of a flag for the record: what it was set to last, or else what the settings
file says.  Defaults and what the user says are left out. -/
def lastFlag? (p : Project) (edits : List Edit) (name : String) : Option Bool :=
  (edits.filterMap (Edit.flag? name)).getLast?.or ((readFile p recordedPath).features.get? name)

/-- The last version: what it was set to last, or else what the settings file says. -/
def lastVersion? (p : Project) (edits : List Edit) : Option String :=
  (edits.filterMap Edit.version?).getLast?.getD (readFile p recordedPath).version

/-! ### Merging -/

/-- The second document is the first with the version put in, if there is one, and with the
flags, if there are any.  No key moves or goes; other keys have the values of before, and so
have the members beside the flags. -/
structure Keeps (version : Option String) (flags : String → Option Bool)
    (old new : Entries String Value) : Prop where
  places : old.keys <+: new.keys
  distinct : new.Distinct
  version : new.get? "version" = (version.map .string).or (old.get? "version")
  unflagged : (∀ name, flags name = none) → new.get? "features" = old.get? "features"
  flagged : (∃ name enabled, flags name = some enabled) → ∃ members : Entries String Value,
    new.get? "features" = some (.object members) ∧
      (oldFlagMembers old).keys <+: members.keys ∧ members.Distinct ∧
        ∀ name, members.get? name = ((flags name).map .bool).or ((oldFlagMembers old).get? name)
  others : ∀ k, k ≠ "version" → k ≠ "features" → new.get? k = old.get? k

theorem recorded_eq_nil_iff : s.recorded = [] ↔ ∀ name, s.recorded.get? name = none := by
  constructor
  · intro h name
    rw [h]
    rfl
  · intro h
    cases hrecorded : s.recorded with
    | nil => rfl
    | cons f fs =>
        have hhead := h f.1
        simp [hrecorded, Entries.get?] at hhead

/-- A document with the version put in, if there is one. -/
def versioned (s : Settings) (document : Entries String Value) : Entries String Value :=
  match s.version with
  | some version => document.put "version" (.string version)
  | none => document

theorem get?_versioned (s : Settings) (document : Entries String Value) (k : String) :
    (s.versioned document).get? k =
      if k = "version" then (s.version.map .string).or (document.get? k) else document.get? k := by
  unfold versioned
  cases s.version with
  | none => simp
  | some version =>
      simp only
      rw [Entries.get?_put]
      by_cases hk : k = "version"
      · simp [hk]
      · rw [if_neg (Ne.symm hk), if_neg hk]

theorem mergeInto_eq (s : Settings) (document : Entries String Value) :
    s.mergeInto document =
      if s.recorded = [] then s.versioned document
      else (s.versioned document).put "features"
        (.object ((oldFlagMembers document).putAll s.flagMembers)) := by
  have hfeatures : (s.versioned document).get? "features" = document.get? "features" :=
    get?_versioned s document "features"
  rw [← mergeFlags_eq, ← hfeatures]
  rfl

theorem get?_mergeInto_other (s : Settings) (document : Entries String Value) {k : String}
    (h : k ≠ "features") : (s.mergeInto document).get? k = (s.versioned document).get? k := by
  rw [mergeInto_eq]
  split
  · rfl
  · exact Entries.get?_put_of_ne _ _ (Ne.symm h)

theorem keys_prefix_mergeInto (s : Settings) (document : Entries String Value) :
    document.keys <+: (s.mergeInto document).keys := by
  have hversioned : document.keys <+: (s.versioned document).keys := by
    unfold versioned
    cases s.version with
    | none => exact List.prefix_rfl
    | some version => exact document.keys_prefix_put _ _
  rw [mergeInto_eq]
  split
  · exact hversioned
  · exact hversioned.trans (Entries.keys_prefix_put _ _ _)

/-- **Merging keeps all of a document but the version and the flags.** -/
theorem keeps_mergeInto (P : Proper document) (hdistinct : s.recorded.Distinct) :
    Keeps s.version s.recorded.get? document (s.mergeInto document) where
  places := keys_prefix_mergeInto s document
  distinct := distinct_mergeInto P
  version := by rw [get?_mergeInto_other s document (by decide), get?_versioned, if_pos rfl]
  unflagged hnone := by rw [get?_mergeInto_features, if_pos (recorded_eq_nil_iff.mpr hnone)]
  flagged hsome := by
    have hrecorded : s.recorded ≠ [] := by
      obtain ⟨name, enabled, hflag⟩ := hsome
      rintro hnil
      rw [recorded_eq_nil_iff.mp hnil name] at hflag
      cases hflag
    refine ⟨(oldFlagMembers document).putAll s.flagMembers, ?_, Entries.keys_prefix_putAll _ _,
      P.distinct_oldFlagMembers.putAll _, fun name => ?_⟩
    · rw [get?_mergeInto_features, if_neg hrecorded]
    · rw [Entries.get?_putAll (distinct_flagMembers hdistinct), get?_flagMembers hdistinct]
  others k hversion hfeatures := by
    rw [get?_mergeInto_other s document hfeatures, get?_versioned, if_neg hversion]

theorem oldFlagMembers_mergeInto (h : s.recorded ≠ []) (document : Entries String Value) :
    oldFlagMembers (s.mergeInto document) =
      (oldFlagMembers document).putAll s.flagMembers := by
  have hfeatures := get?_mergeInto_features s document
  rw [if_neg h] at hfeatures
  unfold oldFlagMembers
  rw [hfeatures]
  rfl

/-- Merging a second time changes nothing. -/
theorem mergeInto_mergeInto (hdistinct : s.recorded.Distinct) :
    s.mergeInto (s.mergeInto document) = s.mergeInto document := by
  have hversioned : s.versioned (s.mergeInto document) = s.mergeInto document := by
    unfold versioned
    cases hversion : s.version with
    | none => rfl
    | some version => exact Entries.put_of_get? (get?_mergeInto_version hversion)
  rw [mergeInto_eq s (s.mergeInto document), hversioned]
  split
  · rfl
  next hrecorded =>
    have hfeatures := get?_mergeInto_features s document
    rw [if_neg hrecorded] at hfeatures
    -- Each flag stands there with its value already, so putting it in again is no change.
    have d := distinct_flagMembers hdistinct
    rw [oldFlagMembers_mergeInto hrecorded, Entries.putAll_of_get? fun f hf => by
      rw [Entries.get?_putAll d, Entries.get?_of_mem d hf]; rfl]
    exact Entries.put_of_get? hfeatures

/-- The object that the flags are put into has the shape of the document. -/
theorem shaped_oldFlagMembers {P : Number → Prop} {room : Nat}
    (h : (Value.object document).Shaped P (room + 2)) :
    (Value.object (oldFlagMembers document)).Shaped P (room + 1) := by
  unfold oldFlagMembers
  cases hfeatures : document.get? "features" with
  | none => exact .empty
  | some v =>
      cases v with
      | object members => exact h.get? hfeatures
      | _ => exact .empty

/-- A document keeps its shape when the settings are merged in. -/
theorem shaped_mergeInto {P : Number → Prop} {room : Nat}
    (h : (Value.object document).Shaped P (room + 2)) :
    (Value.object (s.mergeInto document)).Shaped P (room + 2) := by
  have hversioned : (Value.object (s.versioned document)).Shaped P (room + 2) := by
    unfold versioned
    cases s.version with
    | none => exact h
    | some version => exact h.put "version" (.string version)
  rw [mergeInto_eq]
  split
  · exact hversioned
  · obtain ⟨n, hn, d, hmembers⟩ := (shaped_oldFlagMembers h).of_object
    cases hn
    refine hversioned.put "features" (.object (d.putAll _) fun m hm => ?_)
    rcases Entries.mem_putAll hm with hm | hm
    · exact hmembers m hm
    · obtain ⟨f, -, rfl⟩ := List.mem_map.mp hm
      exact .bool f.2

/-! ### Recording -/

/-- The settings file holds the document: it is missing or blank and the document is empty, or
it is a text that writes the document. -/
inductive HoldsDocument (p : Project) : Entries String Value → Prop where
  | missing (h : p.content? recordedPath = none) : HoldsDocument p []
  | blank {text : String} (h : p.content? recordedPath = some text)
      (hblank : Text.isBlankText text = true) : HoldsDocument p []
  | text {text : String} {document : Entries String Value}
      (h : p.content? recordedPath = some text) (hread : readMembers text = .ok document) :
    HoldsDocument p document

/-- A recording starts from the document that the file holds. -/
theorem HoldsDocument.oldDocument_eq (h : HoldsDocument p document) :
    oldDocument p = .ok document := by
  unfold oldDocument
  cases h with
  | missing h => rw [h]
  | blank h hblank =>
      rw [h]
      simp only
      rw [if_pos hblank]
  | text h hread =>
      rw [h]
      simp only
      rw [if_neg, hread]
      · rfl
      · -- A blank text writes no document.
        intro hblank
        obtain ⟨ms, hloose, -⟩ := readMembers_object hread
        rw [readLoose_blank hblank] at hloose
        cases hloose

/-- A document that the file holds can be read back, as soon as its numbers can. -/
theorem HoldsDocument.readable (h : HoldsDocument p document)
    (hnumbers : ∀ n ∈ (Value.object document).numbers, n.ReadsBack) :
    (Value.object document).Readable Reader.maxDepth := by
  have hempty : (Value.object []).Readable Reader.maxDepth :=
    .object Entries.distinct_nil fun m hm => by cases hm
  cases h with
  | missing | blank => exact hempty
  | text h hread =>
      obtain ⟨v, hv, rfl⟩ := readMembers_ok hread
      cases v with
      | object members =>
          refine readable_of_read (fun w hw => ?_) hv
          obtain rfl := Except.ok.inj (hv.symm.trans hw)
          exact hnumbers
      | _ => exact hempty

/-- In an open project a recording writes the merged document, and nothing else. -/
theorem record_of_holds (hopen : p.IsOpen) (h : HoldsDocument p document) (s : Settings) :
    ∃ p', s.record p = (p', none) ∧
      p.Sets recordedPath (some ((Value.object (s.mergeInto document)).pretty ++ "\n")) p' := by
  obtain ⟨p', hwrite, hsets⟩ := hopen.write recordedPath (s.newText document)
  refine ⟨p', ?_, hsets⟩
  unfold record
  rw [h.oldDocument_eq]
  simp only [hwrite, Option.map_none]

/-- **Recording the settings keeps everything that is not theirs.**

Settings that were loaded from an open project and changed in any way can be recorded, whatever
document their file holds.  Only that file changes.  It then holds the document with the last
version put in and, if there are flags for the record, with the last value of each under the
flags' key; these come from the file and from the changes alone.  Recording a second time writes
the same text. -/
theorem record_keeps (p : Project) (document : Entries String Value) (edits : List Edit)
    (hopen : p.IsOpen) (hdocument : HoldsDocument p document)
    (hnumbers : ∀ n ∈ (Value.object document).numbers, n.ReadsBack) :
    ∃ p' new text, ((load p).edited edits).record p = (p', none) ∧
      text = (Value.object new).pretty ++ "\n" ∧ p.Sets recordedPath (some text) p' ∧
      HoldsDocument p' new ∧ Keeps (lastVersion? p edits) (lastFlag? p edits) document new ∧
      ∃ p'', ((load p).edited edits).record p' = (p'', none) ∧
        p'.Sets recordedPath (some text) p'' := by
  set s := (load p).edited edits with hs
  have hdistinct : s.recorded.Distinct := distinct_edited (distinct_load p) edits
  have hversion : s.version = lastVersion? p edits := version_edited (load p) edits
  have hflags : s.recorded.get? = lastFlag? p edits :=
    funext fun name => get?_recorded_edited (load p) edits name
  have hreadable := (shaped_mergeInto (s := s) (hdocument.readable hnumbers).shaped).readable
  obtain ⟨p', hrecord, hsets⟩ := record_of_holds hopen hdocument s
  -- The line break after the document is a gap to the reader.
  have hnew : HoldsDocument p' (s.mergeInto document) := by
    refine .text (by rw [hsets.content?, if_pos rfl]) (readMembers_pretty hreadable ?_)
    simp [Reader.Blank, Reader.isGap]
  obtain ⟨p'', hagain, hsets'⟩ := record_of_holds hsets.isOpen hnew s
  rw [mergeInto_mergeInto hdistinct] at hsets'
  refine ⟨p', _, _, hrecord, rfl, hsets, hnew, ?_, p'', hagain, hsets'⟩
  rw [← hversion, ← hflags]
  exact keeps_mergeInto (proper_oldDocument hdocument.oldDocument_eq) hdistinct

/-- Beside another key a new version and a flag that was set are recorded; a flag that only the
user set is not. -/
theorem record_keeps_bundler :
    let p : Project := .ofTexts
      [(".config/.cprc.json", "\x7b\"version\":\"5.2.0\",\"bundler\":\"webpack\"\x7d"),
        (".cprc.json", "\x7b\"features\":\x7b\"usePlaywright\":false\x7d\x7d")]
    let edits : List Edit := [.version (some "6.2.0"), .flag "bundleGrafanaUI" true]
    ∃ (p' : Project) (new members : Entries String Value),
      ((load p).edited edits).record p = (p', none) ∧ HoldsDocument p' new ∧
      new.get? "version" = some (.string "6.2.0") ∧
      new.get? "bundler" = some (.string "webpack") ∧
      new.get? "features" = some (.object members) ∧
      members.get? "bundleGrafanaUI" = some (.bool true) ∧
      members.get? "usePlaywright" = none := by
  intro p edits
  have hcontent : p.content? recordedPath =
      some "\x7b\"version\":\"5.2.0\",\"bundler\":\"webpack\"\x7d" := by decide +kernel
  have hdocument : HoldsDocument p [("version", .string "5.2.0"), ("bundler", .string "webpack")] :=
    .text hcontent (by decide +kernel)
  obtain ⟨p', new, -, hrecord, -, -, hnew, K, -⟩ :=
    record_keeps p _ edits (Project.isOpen_ofTexts _) hdocument (by decide +kernel)
  have hset : lastFlag? p edits "bundleGrafanaUI" = some true := by decide +kernel
  have huser : lastFlag? p edits "usePlaywright" = none := by decide +kernel
  have hversion : lastVersion? p edits = some "6.2.0" := by decide +kernel
  obtain ⟨members, hfeatures, -, -, hmembers⟩ := K.flagged ⟨_, _, hset⟩
  refine ⟨p', new, members, hrecord, hnew, ?_, ?_, hfeatures, ?_, ?_⟩
  · rw [K.version, hversion]
    rfl
  · exact K.others "bundler" (by decide) (by decide)
  · rw [hmembers, hset]
    rfl
  · rw [hmembers, huser]
    rfl

end Settings

end Upkeep
