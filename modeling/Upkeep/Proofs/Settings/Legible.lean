/-
Settings files that reading and recording understand alike.

Reading takes a settings file loosely and as a whole, recording takes the document that it
writes strictly; where both take a text they see the same version and the same flags.  A
recording merges into such a document, and what it leaves is again one that is read, now
with the recorded flags in it.
-/
import Upkeep.Proofs.Json.Strict
import Upkeep.Proofs.Settings.Reload
import Upkeep.Proofs.Text.Digits

namespace Upkeep

open Json

namespace Json

/-- A text whose members are read is an object. -/
theorem readMembers_object {text : String} {members : Entries String Value}
    (h : readMembers text = .ok members) :
    ∃ ms, readLoose text = some (.object ms) ∧ (Tree.object ms).value? = some (.object members) := by
  have hbrace : ∃ r, Reader.skipGap text.toList = '\x7b' :: r := by
    unfold readMembers at h
    simp only at h
    split at h
    · simp at h
    next r hs => exact ⟨r, hs⟩
    · split at h <;> simp at h
  obtain ⟨r, hbrace⟩ := hbrace
  obtain ⟨v, hread, rfl⟩ := readMembers_ok h
  obtain ⟨t, hloose, hvalue⟩ := readLoose_of_read hread
  obtain ⟨ms, rfl⟩ : ∃ ms, t = .object ms := by
    unfold readLoose at hloose
    rcases hdocument : Reader.document false text.toList with stop | t'
    · rw [hdocument] at hloose
      cases hloose
    rw [hdocument] at hloose
    cases hloose
    obtain ⟨rest, htree, -⟩ := Reader.document_ok hdocument
    unfold Reader.tree at htree
    rw [hbrace] at htree
    simp only [Char.reduceEq, if_false, if_true] at htree
    obtain ⟨⟨ms, rest'⟩, -, hms⟩ := Except.bind_ok htree
    cases hms
    exact ⟨ms, rfl⟩
  refine ⟨ms, hloose, ?_⟩
  unfold Tree.value? at hvalue ⊢
  obtain ⟨pairs, hpairs, rfl⟩ := Option.map_eq_some_iff.mp hvalue
  rw [hpairs]
  rfl

/-- Where members are read, the text is an object that has just these. -/
theorem read_of_readMembers {text : String} {members : Entries String Value}
    (h : readMembers text = .ok members) : read text = .ok (.object members) := by
  obtain ⟨ms, hloose, hvalue⟩ := readMembers_object h
  obtain ⟨v, hread, -⟩ := readMembers_ok h
  obtain ⟨t, hloose', hvalue'⟩ := readLoose_of_read hread
  obtain rfl : Tree.object ms = t := Option.some.inj (hloose.symm.trans hloose')
  obtain rfl : Value.object members = v := Option.some.inj (hvalue.symm.trans hvalue')
  exact hread

/-- No document starts with a blank that is no gap. -/
theorem Reader.tree_blank {c : Char} (hblank : Text.isBlank c = true)
    {cs : List Char} (hskip : Reader.skipGap (c :: cs) = c :: cs) (strict : Bool)
    (fuel room : Nat) {x} : Reader.tree strict fuel room (c :: cs) ≠ .ok x := by
  have hne : ∀ d, Text.isBlank d = false → c ≠ d := by
    rintro d hd rfl
    rw [hd] at hblank
    cases hblank
  have hdigit : ¬c.isDigit = true := by
    intro hdigit
    obtain ⟨hge, hle⟩ := Text.toNat_of_isDigit hdigit
    simp [Text.isBlank] at hblank
    omega
  cases fuel with
  | zero => simp [Reader.tree]
  | succ fuel =>
      unfold Reader.tree
      rw [hskip]
      simp only [if_neg (hne 'n' (by decide)), if_neg (hne 't' (by decide)),
        if_neg (hne 'f' (by decide)), if_neg (hne '-' (by decide)), if_neg hdigit,
        if_neg (hne '"' (by decide)), if_neg (hne '[' (by decide)),
        if_neg (hne '\x7b' (by decide))]
      simp

/-- Blanks are no document. -/
theorem readLoose_blank {text : String} (h : Text.isBlankText text = true) :
    readLoose text = none := by
  have hblank : ∀ c ∈ text.toList, Text.isBlank c = true := List.all_eq_true.mp h
  have htree : ∀ fuel room x, Reader.tree false fuel room text.toList ≠ .ok x := by
    intro fuel room x hx
    obtain ⟨c, r, hs, -, htree⟩ := Reader.tree_start hx
    have hc : Text.isBlank c = true := by
      refine hblank c ((List.dropWhile_sublist Reader.isGap).subset ?_)
      rw [show text.toList.dropWhile Reader.isGap = c :: r from hs]
      exact List.mem_cons_self
    exact Reader.tree_blank hc (Reader.skipGap_self hs) _ _ _ htree
  unfold readLoose
  rcases hdocument : Reader.document false text.toList with stop | t
  · rfl
  · obtain ⟨rest, hread, -⟩ := Reader.document_ok hdocument
    exact absurd hread (htree _ _ _)

end Json

namespace SettingsFile

variable {ms : List (Option String × Tree)} {file : SettingsFile}

/-- The version that is read of members stands under its key, which is written once or not at
all. -/
theorem ofMembers?_version (h : ofMembers? ms = some file) :
    (written ms "version" = [] ∧ file.version = none) ∨
      ∃ t, written ms "version" = [t] ∧ versionOf? t = some file.version := by
  unfold ofMembers? at h
  obtain ⟨-, -, h⟩ := Option.bind_eq_some_iff.mp h
  rcases hwritten : written ms "version" with _ | ⟨t, _ | ⟨u, ts⟩⟩
  · refine .inl ⟨rfl, ?_⟩
    simp only [hwritten] at h
    obtain ⟨version, hversion, h⟩ := Option.bind_eq_some_iff.mp h
    cases hversion
    split at h
    all_goals
      obtain ⟨features, -, h⟩ := Option.bind_eq_some_iff.mp h
      cases h
      rfl
  · refine .inr ⟨t, rfl, ?_⟩
    simp only [hwritten] at h
    obtain ⟨version, hversion, h⟩ := Option.bind_eq_some_iff.mp h
    split at h
    all_goals
      obtain ⟨features, -, h⟩ := Option.bind_eq_some_iff.mp h
      cases h
      exact hversion
  · simp only [hwritten] at h
    obtain ⟨version, hversion, -⟩ := Option.bind_eq_some_iff.mp h
    cases hversion

/-- A key that is written once has its value in the document, and one that is not written has
none. -/
theorem get?_memberValues {pairs : List (String × Value)} (h : Tree.memberValues? ms = some pairs)
    (es : Entries String Value) (key : String) :
    (written ms key = [] → (es.putAll pairs).get? key = es.get? key) ∧
      ∀ t, written ms key = [t] → (es.putAll pairs).get? key = t.value? := by
  induction ms generalizing es pairs with
  | nil =>
      cases h
      exact ⟨fun _ => rfl, fun t ht => by cases ht⟩
  | cons m ms ih =>
      obtain ⟨k, t⟩ := m
      unfold Tree.memberValues? at h
      rcases k with _ | k
      · cases h
      rcases hvalue : t.value? with _ | v
      · simp [hvalue] at h
      rcases hrest : Tree.memberValues? ms with _ | vs
      · simp [hrest] at h
      simp only [hvalue, hrest, Option.some.injEq] at h
      subst h
      obtain ⟨hnone, hone⟩ := ih hrest (es.put k v)
      have hcons : written ((some k, t) :: ms) key =
          (if k = key then [t] else []) ++ written ms key := by
        unfold written
        by_cases hkey : k = key
        · simp [hkey]
        · simp [hkey]
      rw [hcons, Entries.putAll_cons]
      by_cases hkey : k = key
      · subst hkey
        rw [if_pos rfl, List.singleton_append]
        refine ⟨fun hc => (List.cons_ne_nil _ _ hc).elim, fun u hu => ?_⟩
        obtain ⟨rfl, hnil⟩ := List.cons.inj hu
        rw [hnone hnil, Entries.get?_put_self, hvalue]
      · rw [if_neg hkey, List.nil_append]
        have hput : (es.put k v).get? key = es.get? key := Entries.get?_put_of_ne es v hkey
        exact ⟨fun hnil => (hnone hnil).trans hput, hone⟩

/-- A version that is read of a tree is read of its value. -/
theorem versionMember?_value? {t : Tree} {version : Option String}
    (h : versionOf? t = some version) : versionMember? t.value? = some version := by
  cases t with
  | null =>
      show versionOf? Value.null.reread = some version
      rw [Value.reread]
      exact h
  | string s =>
      cases s with
      | none => cases h
      | some s =>
          show versionOf? (Value.string s).reread = some version
          rw [Value.reread]
          exact h
  | _ => cases h

/-- Flags are the members of an object of truth values. -/
theorem value?_of_featuresOf? {t : Tree} {features : Flags} (h : featuresOf? t = some features) :
    t.value? = some (.object (features.map fun f => (f.1, .bool f.2))) := by
  cases t with
  | object ms =>
      obtain ⟨flags, hflags, rfl⟩ := Option.map_eq_some_iff.mp h
      have hvalues : ∀ (ms : List (Option String × Tree)) (flags : Flags),
          ms.mapM flagOf? = some flags →
            Tree.memberValues? ms = some (flags.map fun f => (f.1, .bool f.2)) := by
        intro ms
        induction ms with
        | nil =>
            intro flags hflags
            cases hflags
            rfl
        | cons m ms ih =>
            intro flags hflags
            rw [List.mapM_cons] at hflags
            obtain ⟨f, hf, hflags⟩ := Option.bind_eq_some_iff.mp hflags
            obtain ⟨fs, hfs, hflags⟩ := Option.bind_eq_some_iff.mp hflags
            cases hflags
            unfold flagOf? at hf
            split at hf
            · cases hf
              unfold Tree.memberValues?
              rw [ih fs hfs]
              rfl
            · cases hf
      unfold Tree.value?
      rw [hvalues ms flags hflags, Entries.map_putAll]
      rfl
  | _ => simp [featuresOf?] at h

/-- The document has the version and the flags of the settings file, and no key twice. -/
structure Describes (document : Entries String Value) (file : SettingsFile) : Prop where
  proper : Settings.Proper document
  version : versionMember? (document.get? "version") = some file.version
  features : featuresMember? (document.get? "features") = some file.features

namespace Describes

variable {document : Entries String Value}

theorem nil : Describes [] {} :=
  ⟨⟨Entries.distinct_nil, fun members hmembers => by cases hmembers⟩, rfl, rfl⟩

/-- A document is read as the settings file that it describes. -/
theorem ofText?_eq (D : Describes document file) :
    ofText? ((Value.object document).pretty ++ "\n") = some file := by
  rw [ofText?_printed D.proper.distinct, D.version, D.features]
  rfl

end Describes

/-- **Both readings of a text see the same settings.** -/
theorem describes_of_read {text : String} {document : Entries String Value}
    (P : Settings.Proper document) (hstrict : readMembers text = .ok document)
    (hloose : ofText? text = some file) : Describes document file := by
  obtain ⟨ms, hread, hvalue⟩ := readMembers_object hstrict
  unfold ofText? at hloose
  rw [hread] at hloose
  have hloose : ofMembers? ms = some file := hloose
  unfold Tree.value? at hvalue
  obtain ⟨pairs, hpairs, hdocument⟩ := Option.map_eq_some_iff.mp hvalue
  cases hdocument
  refine ⟨P, ?_, ?_⟩
  · obtain ⟨hnone, hone⟩ := get?_memberValues hpairs [] "version"
    rcases ofMembers?_version hloose with ⟨hnil, hversion⟩ | ⟨t, ht, hversion⟩
    · rw [hnone hnil, hversion]
      rfl
    · rw [hone t ht]
      exact versionMember?_value? hversion
  · obtain ⟨hnone, hone⟩ := get?_memberValues hpairs [] "features"
    rcases ofMembers?_some hloose with ⟨hnil, hfeatures⟩ | ⟨t, ht, hfeatures⟩
    · rw [hnone hnil, hfeatures]
      rfl
    · rw [hone t ht, value?_of_featuresOf? hfeatures]
      exact featuresOf?_reread.mpr
        ⟨file.features, rfl, (Entries.putAll_nil_of_distinct (distinct_featuresOf? hfeatures)).symm⟩

end SettingsFile

namespace Settings

open SettingsFile

variable {s : Settings} {p p' : Project} {document : Entries String Value} {file : SettingsFile}

/-! ### What is recorded -/

/-- The settings file can be read, and what it holds is a settings file unless it is blank. -/
structure Legible (p : Project) : Prop where
  read : ¬p.store.Denies (recordedPath.locate p.base) .read
  text : ∀ text, p.content? recordedPath = some text →
    Text.isBlankText text = true ∨ (ofText? text).isSome = true

/-- The document that a recording starts from has the settings that are loaded. -/
theorem describes_oldDocument (L : Legible p) (hold : oldDocument p = .ok document) :
    Describes document (readFile p recordedPath) := by
  have P := proper_oldDocument hold
  unfold oldDocument at hold
  unfold readFile
  rcases hcontent : p.content? recordedPath with _ | text
  · rw [hcontent] at hold
    cases hold
    exact .nil
  rw [hcontent] at hold
  simp only at hold
  rw [Option.bind_some]
  by_cases hblank : Text.isBlankText text = true
  · rw [if_pos hblank] at hold
    cases hold
    have hnone : ofText? text = none := by
      unfold ofText?
      rw [readLoose_blank hblank]
    rw [hnone]
    exact .nil
  · rw [if_neg hblank] at hold
    obtain ⟨file, hfile⟩ := Option.isSome_iff_exists.mp ((L.text text hcontent).resolve_left hblank)
    rcases hread : readMembers text with problem | members
    · rw [hread] at hold
      cases hold
    · rw [hread] at hold
      cases hold
      rw [hfile]
      exact describes_of_read P hread hfile

/-- The flags of a described document are those of the file. -/
theorem oldFlagMembers_eq (D : Describes document file) :
    oldFlagMembers document = file.features.map fun f => (f.1, .bool f.2) := by
  have hfeatures := D.features
  unfold oldFlagMembers
  cases hmember : document.get? "features" with
  | none =>
      rw [hmember] at hfeatures
      rw [← Option.some.inj hfeatures]
      rfl
  | some v =>
      rw [hmember] at hfeatures
      obtain ⟨flags, rfl, hflags⟩ := featuresOf?_reread.mp hfeatures
      have d : Entries.Distinct flags := by
        have hmembers := D.proper.features _ hmember
        unfold Entries.Distinct Entries.keys at hmembers
        rwa [List.map_map] at hmembers
      rw [hflags, Entries.putAll_nil_of_distinct d]
      rfl

/-- Flags that are put into a described document are put into what it describes. -/
theorem describes_mergeInto (D : Describes document file) (hdistinct : file.features.Distinct)
    (hrecorded : s.recorded ≠ []) :
    Describes (s.mergeInto document)
      ⟨s.version.or file.version, file.features.putAll (sortFlags s.recorded)⟩ := by
  refine ⟨proper_mergeInto D.proper, ?_, ?_⟩
  · cases hversion : s.version with
    | some version =>
        rw [get?_mergeInto_version hversion]
        show versionOf? (Value.string version).reread = _
        rw [Value.reread]
        rfl
    | none =>
        have hkept : (s.mergeInto document).get? "version" = document.get? "version" := by
          unfold mergeInto
          rw [hversion]
          simp only [if_neg hrecorded]
          exact Entries.get?_put_of_ne _ _ (by decide)
        rw [hkept]
        exact D.version
  · rw [get?_mergeInto_features, if_neg hrecorded, oldFlagMembers_eq D]
    refine featuresOf?_reread.mpr ⟨file.features.putAll (sortFlags s.recorded), ?_,
      (Entries.putAll_nil_of_distinct (hdistinct.putAll _)).symm⟩
    rw [Entries.map_putAll]
    rfl

/-- **A recording leaves a settings file in which each flag is the recorded one**, or else the
one that the file had. -/
theorem record_legible (L : Legible p) (hdistinct : s.recorded.Distinct)
    (hrecorded : s.recorded ≠ []) (h : s.record p = (p', none)) :
    (∃ text, p'.content? recordedPath = some text ∧ (ofText? text).isSome = true) ∧
      ∀ flag, (readFile p' recordedPath).features.get? flag =
        (s.recorded.get? flag).or ((readFile p recordedPath).features.get? flag) := by
  obtain ⟨document, hold, hwrite⟩ := record_ok h
  have hcontent : p'.content? recordedPath = some (s.newText document) :=
    Project.content?_write L.read hwrite
  have hread : ofText? (s.newText document) = some _ :=
    (describes_mergeInto (s := s) (describes_oldDocument L hold) (distinct_readFile p _)
      hrecorded).ofText?_eq
  refine ⟨⟨_, hcontent, by rw [hread]; rfl⟩, fun flag => ?_⟩
  have hflags := Entries.get?_perm (sortFlags_perm s.recorded) hdistinct
  have hsorted : (sortFlags s.recorded).Distinct :=
    ((sortFlags_perm s.recorded).map Prod.fst).nodup_iff.mpr hdistinct
  unfold readFile
  rw [hcontent, Option.bind_some, hread, Option.getD_some]
  simp only
  rw [Entries.get?_putAll hsorted, hflags]
  rfl

/-- A flag is what the user says of it, or the recorded settings, or else its default. -/
theorem feature_load_eq (p : Project) (flag : String) :
    (load p).feature flag =
      (((readFile p userPath).features.get? flag).or
        (((readFile p recordedPath).features.get? flag).or (defaultFlags.get? flag))).getD false := by
  unfold feature load
  simp only
  rw [Entries.get?_putAll (distinct_readFile p userPath),
    Entries.get?_putAll (distinct_readFile p recordedPath)]

end Settings

end Upkeep
