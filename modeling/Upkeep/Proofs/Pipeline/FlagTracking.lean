/-
Feature flags in memory and on record.

An addition switches its flag on in memory before it records it, and a flag that is on in
memory is not recorded again.  So a recording that is refused leaves a flag that is on in
memory alone.  `Tracks` says that the flags in memory are those that a loading finds and those
whose recording was refused.

A project in memory refuses either every recording or none until one of them changes the file.
While they are refused the file stays, so what was lost stays lost; and where one is
accepted nothing was lost before.

That is all as long as a loading takes the settings file.  Where it drops the file, or cannot read
it, recordings are accepted all the same, and `Follows` says what has come of the file: its flags
count if they are enough for it to be taken up, and then it speaks of other flags as well.
-/
import Upkeep.Proofs.Overlay.PartialFlush
import Upkeep.Proofs.Pipeline.Frame
import Upkeep.Proofs.Settings.Overlooked

namespace Upkeep

/-! ### Projects in memory -/

namespace Project.InMemory

variable {closed : List (List Component × Access)} {p p' : Project} {q : ProjectPath}

theorem apply (h : p.InMemory closed) (q : ProjectPath) (r : Pending) :
    (p.apply q r).1.InMemory closed := by
  cases r with
  | add content => exact h.write q content
  | update content => exact h.write q content
  | delete => exact h.remove q

theorem applyAll (h : p.InMemory closed) (changes : ChangeSet) :
    (p.applyAll changes).1.InMemory closed :=
  applyAll_keeps (fun _ q r _ hp => hp.apply q r) h

/-- What can be read at a path depends on what is held there, and on what is denied. -/
theorem content?_congr (h : p.InMemory closed) (h' : p'.InMemory closed)
    (hsame : p.SameAt q p') : p'.content? q = p.content? q := by
  refine Option.map_injective (fun _ _ hc => Content.text.inj hc) ?_
  rw [h.content?_eq, h'.content?_eq, hsame.1, hsame.2]
  exact if_congr (h.denies_iff h' _ _) rfl rfl

end Project.InMemory

/-- Two projects in memory with the same denials, of which the second has the settings files of
the first. -/
structure Project.SameSettings (closed : List (List Component × Access)) (p p' : Project) :
    Prop where
  before : p.InMemory closed
  after : p'.InMemory closed
  recorded : p.SameAt Settings.recordedPath p'
  user : p.SameAt Settings.userPath p'

namespace Settings

variable {closed : List (List Component × Access)} {p p' : Project}

/-- A recording is refused: the file cannot be read as a document, or writing it is denied. -/
def Refuses (p : Project) : Prop :=
  (∃ e, oldDocument p = .error e) ∨ p.store.Denies (recordedPath.locate p.base) .write

/-- A recording is accepted, although a loading drops the settings file or cannot read it. -/
def Overlooked (p : Project) : Prop := ¬Refuses p ∧ ¬Legible p

theorem record_refused_iff (h : p.InMemory closed) (s : Settings) :
    (s.record p).2 ≠ none ↔ Refuses p := by
  unfold Refuses
  rcases hold : oldDocument p with e | document
  · rw [record_unreadable hold]
    simp
  · rw [← h.write_refused_iff recordedPath (s.newText document)]
    simpa using not_congr (record_readable (s := s) hold).2

theorem record_inMemory (h : p.InMemory closed) (s : Settings) :
    (s.record p).1.InMemory closed := by
  rcases hold : oldDocument p with e | document
  · rw [record_unreadable hold]
    exact h
  · rw [(record_readable hold).1]
    exact h.write _ _

theorem readFile_congr (h : p.InMemory closed) (h' : p'.InMemory closed) {q : ProjectPath}
    (hsame : p.SameAt q p') : readFile p' q = readFile p q := by
  unfold readFile
  rw [h.content?_congr h' hsame]

/-- An accepted recording leaves a file that can be read, with the recorded flags, and what the
user says. -/
theorem record_accepted {s : Settings} (hmemory : p.InMemory closed) (L : Legible p)
    (hdistinct : s.recorded.Distinct) (hrecorded : s.recorded ≠ [])
    (h : s.record p = (p', none)) :
    p'.InMemory closed ∧ Legible p' ∧ readFile p' userPath = readFile p userPath ∧
      ∀ flag, (readFile p' recordedPath).features.get? flag =
        (s.recorded.get? flag).or ((readFile p recordedPath).features.get? flag) := by
  have hmemory' : p'.InMemory closed := by
    have hrecord := record_inMemory hmemory s
    rwa [h] at hrecord
  obtain ⟨hbase, hothers⟩ := record_others h
  obtain ⟨⟨text, hcontent, htext⟩, hflags⟩ := record_legible L hdistinct hrecorded h
  refine ⟨hmemory', ⟨?_, fun text' htext' => ?_⟩, ?_, hflags⟩
  · rw [hmemory.denies_iff hmemory', hbase]
    exact L.read
  · rw [hcontent] at htext'
    cases htext'
    exact .inr htext
  · exact readFile_congr hmemory hmemory' ⟨hbase, hothers userPath (by decide)⟩

end Settings

namespace Project.SameSettings

variable {closed : List (List Component × Access)} {p p' : Project}

theorem readFile_recorded (S : SameSettings closed p p') :
    Settings.readFile p' Settings.recordedPath = Settings.readFile p Settings.recordedPath :=
  Settings.readFile_congr S.before S.after S.recorded

theorem readFile_user (S : SameSettings closed p p') :
    Settings.readFile p' Settings.userPath = Settings.readFile p Settings.userPath :=
  Settings.readFile_congr S.before S.after S.user

theorem load (S : SameSettings closed p p') : Settings.load p' = Settings.load p := by
  unfold Settings.load
  rw [S.readFile_recorded, S.readFile_user]

theorem refuses_iff (S : SameSettings closed p p') : Settings.Refuses p' ↔ Settings.Refuses p := by
  unfold Settings.Refuses Settings.oldDocument
  rw [S.before.content?_congr S.after S.recorded, S.recorded.1]
  exact or_congr Iff.rfl (S.before.denies_iff S.after _ _)

theorem legible (S : SameSettings closed p p') (L : Settings.Legible p) : Settings.Legible p' := by
  refine ⟨?_, ?_⟩
  · rw [S.before.denies_iff S.after, S.recorded.1]
    exact L.read
  · rw [S.before.content?_congr S.after S.recorded]
    exact L.text

end Project.SameSettings

/-! ### What is in memory and what is on record -/

namespace Settings

variable {closed : List (List Component × Access)} {refused : List String} {s : Settings}
  {p p' : Project} {flag : String}

theorem feature_setFeature (s : Settings) (flag other : String) (enabled : Bool) :
    (s.setFeature flag enabled).feature other =
      if flag = other then enabled else s.feature other := by
  unfold feature setFeature
  simp only
  split
  next heq => rw [heq, Entries.get?_put_self, Option.getD_some]
  next hne => rw [Entries.get?_put_of_ne _ _ hne]

/-- The user does not turn the flag off. -/
def UserAllows (p : Project) (flag : String) : Prop :=
  (readFile p userPath).features.get? flag ≠ some false

/-- What is said of settings, their project and the flags whose recording was refused holds on
when the project changes beside the settings files, and when a flag that is off is switched on. -/
structure FlagInvariant (closed : List (List Component × Access))
    (I : List String → Settings → Project → Prop) : Prop where
  memory : ∀ {refused s p}, I refused s p → p.InMemory closed
  move : ∀ {refused s p p'}, I refused s p → p.SameSettings closed p' → I refused s p'
  switch_ok : ∀ {refused s p p' flag}, I refused s p → s.feature flag = false →
    (s.setFeature flag true).record p = (p', none) → I refused (s.setFeature flag true) p'
  switch_refused : ∀ {refused s p p' flag e}, I refused s p → s.feature flag = false →
    (s.setFeature flag true).record p = (p', some e) →
      I (refused ++ [flag]) (s.setFeature flag true) p'

/-! ### Files that a loading takes -/

/-- The flags in force are those that a loading finds, and those whose recording was refused,
which are on in memory alone. -/
structure Tracks (closed : List (List Component × Access)) (refused : List String) (s : Settings)
    (p : Project) : Prop where
  memory : p.InMemory closed
  distinct : s.recorded.Distinct
  /-- Where a recording was refused all are. -/
  stuck : refused ≠ [] → Refuses p
  /-- Where recordings are accepted the file has the flags that belong there. -/
  recorded : ¬Refuses p → Legible p ∧
    ∀ flag, (readFile p recordedPath).features.get? flag = s.recorded.get? flag
  inForce : ∀ flag, UserAllows p flag →
    (s.feature flag = true ↔ (load p).feature flag = true ∨ flag ∈ refused)
  lost : ∀ flag ∈ refused, UserAllows p flag → (load p).feature flag = false

namespace Tracks

/-- Settings that were just loaded are those that a loading finds. -/
theorem load (h : p.InMemory closed) (hlegible : ¬Refuses p → Legible p) :
    Tracks closed [] (load p) p where
  memory := h
  distinct := distinct_load p
  stuck hne := absurd rfl hne
  recorded hopen := ⟨hlegible hopen, fun _ => rfl⟩
  inForce flag _ := by simp
  lost flag hflag := absurd hflag List.not_mem_nil

/-- What leaves the settings files alone changes nothing here. -/
theorem move (T : Tracks closed refused s p) (S : p.SameSettings closed p') :
    Tracks closed refused s p' := by
  have hallows : ∀ flag, UserAllows p' flag → UserAllows p flag := by
    intro flag hallows
    unfold UserAllows at hallows ⊢
    rwa [S.readFile_user] at hallows
  refine ⟨S.after, T.distinct, fun hne => S.refuses_iff.mpr (T.stuck hne), fun hopen => ?_,
    fun flag hflag => ?_, fun flag hmem hflag => ?_⟩
  · obtain ⟨hlegible, hrecorded⟩ := T.recorded (fun hrefuses => hopen (S.refuses_iff.mpr hrefuses))
    rw [S.readFile_recorded]
    exact ⟨S.legible hlegible, hrecorded⟩
  · rw [S.load]
    exact T.inForce flag (hallows flag hflag)
  · rw [S.load]
    exact T.lost flag hmem (hallows flag hflag)

/-- Where a recording is accepted none was refused. -/
theorem refused_eq_nil (T : Tracks closed refused s p) (hopen : ¬Refuses p) : refused = [] := by
  by_contra hne
  exact hopen (T.stuck hne)

/-- A flag that is recorded is found by a loading, and the others stay. -/
theorem switch_ok (T : Tracks closed refused s p)
    (h : (s.setFeature flag true).record p = (p', none)) :
    Tracks closed refused (s.setFeature flag true) p' := by
  have hopen : ¬Refuses p := by
    rw [← record_refused_iff T.memory (s.setFeature flag true), h]
    simp
  have hnone := T.refused_eq_nil hopen
  obtain ⟨hlegible, hfile⟩ := T.recorded hopen
  have hdistinct := distinct_setFeature T.distinct flag true
  have hon : (s.setFeature flag true).recorded.get? flag = some true :=
    Entries.get?_put_self _ flag true
  have hsame : ∀ other, other ≠ flag →
      (s.setFeature flag true).recorded.get? other = s.recorded.get? other :=
    fun other hne => Entries.get?_put_of_ne _ _ (Ne.symm hne)
  have hrecorded : (s.setFeature flag true).recorded ≠ [] := by
    intro hnil
    rw [hnil] at hon
    cases hon
  obtain ⟨hmemory, hlegible', huser, hflags⟩ :=
    record_accepted T.memory hlegible hdistinct hrecorded h
  have hnow : ∀ other, (readFile p' recordedPath).features.get? other =
      (s.setFeature flag true).recorded.get? other := by
    intro other
    rw [hflags]
    by_cases hother : other = flag
    · rw [hother, hon]
      rfl
    · rw [hsame other hother, hfile, Option.or_self]
  refine ⟨hmemory, hdistinct, fun hne => absurd hnone hne, fun _ => ⟨hlegible', hnow⟩,
    fun other hallows => ?_, fun other hmem => ?_⟩
  · unfold UserAllows at hallows
    rw [huser] at hallows
    rw [feature_setFeature, feature_load_eq p', huser, hnow]
    by_cases hother : flag = other
    · subst hother
      rw [if_pos rfl, hon]
      rcases hsays : (readFile p userPath).features.get? flag with _ | _ | _
      · simp
      · exact absurd hsays hallows
      · simp
    · rw [if_neg hother, hsame other (Ne.symm hother), ← hfile, ← feature_load_eq p]
      exact T.inForce other hallows
  · rw [hnone] at hmem
    exact absurd hmem List.not_mem_nil

/-- A flag that is not recorded is on in memory alone. -/
theorem switch_refused (T : Tracks closed refused s p) (hoff : s.feature flag = false)
    {e : SettingsError} (h : (s.setFeature flag true).record p = (p', some e)) :
    Tracks closed (refused ++ [flag]) (s.setFeature flag true) p' := by
  have hrefused : ((s.setFeature flag true).record p).2 ≠ none := by
    rw [h]
    simp
  have S : p.SameSettings closed p' := by
    have hmemory := record_inMemory T.memory (s.setFeature flag true)
    obtain ⟨hbase, hheld⟩ := record_refused hrefused
    rw [h] at hmemory hbase hheld
    exact ⟨T.memory, hmemory, ⟨hbase, hheld _⟩, ⟨hbase, hheld _⟩⟩
  have hrefuses : Refuses p' := S.refuses_iff.mpr ((record_refused_iff T.memory _).mp hrefused)
  have T' := T.move S
  refine ⟨S.after, distinct_setFeature T.distinct flag true, fun _ => hrefuses,
    fun hopen => absurd hrefuses hopen, fun other hallows => ?_, fun other hmem hallows => ?_⟩
  · rw [feature_setFeature, List.mem_append, List.mem_singleton, ← or_assoc,
      ← T'.inForce other hallows]
    by_cases hother : flag = other
    · simp [hother]
    · simp [hother, Ne.symm hother]
  · rcases List.mem_append.mp hmem with hmem | hmem
    · exact T'.lost other hmem hallows
    · rw [List.mem_singleton] at hmem
      subst hmem
      rw [Bool.eq_false_iff]
      intro hloaded
      rw [(T'.inForce other hallows).mpr (.inl hloaded)] at hoff
      cases hoff

theorem invariant : FlagInvariant closed (Tracks closed) where
  memory T := T.memory
  move T S := T.move S
  switch_ok T _ h := T.switch_ok h
  switch_refused T hoff h := T.switch_refused hoff h

end Tracks

/-! ### Files that a loading drops -/

/-- Nothing is loaded of a settings file that is dropped. -/
theorem readFile_of_not_legible (hmemory : p.InMemory closed) (h : ¬Legible p) :
    readFile p recordedPath = {} := by
  unfold readFile
  rcases hcontent : p.content? recordedPath with _ | text
  · rfl
  rcases hfile : SettingsFile.ofText? text with _ | file
  · rw [Option.bind_some, hfile]
    rfl
  · refine absurd ⟨fun hdenied => ?_, fun text' htext' => ?_⟩ h
    · have hnone := hmemory.content?_eq recordedPath
      rw [if_pos hdenied, hcontent] at hnone
      cases hnone
    · cases hcontent.symm.trans htext'
      exact .inr (by rw [hfile]; rfl)

/-- The user says nothing of the flag, and the settings file that it is off. -/
def TurnsOff (p : Project) (flag : String) : Prop :=
  (readFile p userPath).features.get? flag = none ∧
    ∃ document, oldDocument p = .ok document ∧ flagSaid? document flag = some (some false)

/-- A flag that is on in memory is found in a file that a loading dropped: one that was recorded,
if the file is taken up with the recorded flags; one that was on from the start, unless the file
is taken up and turns it off. -/
structure Restores (s : Settings) (p : Project) (flag : String) : Prop where
  recorded : s.recorded.has flag = true → s.TakenUp p
  kept : s.recorded.has flag = false → s.TakenUp p → ¬TurnsOff p flag

/-- A project in memory whose settings file holds a document that a loading drops and a recording
takes. -/
structure Drops (closed : List (List Component × Access)) (p : Project)
    (document : Entries String Json.Value) : Prop where
  memory : p.InMemory closed
  held : oldDocument p = .ok document
  writable : ¬p.store.Denies (recordedPath.locate p.base) .write
  dropped : readFile p recordedPath = {}

theorem Overlooked.drops (h : Overlooked p) (hmemory : p.InMemory closed) :
    ∃ document, Drops closed p document := by
  obtain ⟨haccepts, hlegible⟩ := h
  obtain ⟨hread, hopen⟩ := not_or.mp haccepts
  cases hold : oldDocument p with
  | error e => exact absurd ⟨e, hold⟩ hread
  | ok document =>
      exact ⟨document, hmemory, hold, hopen, readFile_of_not_legible hmemory hlegible⟩

/-- The flags in force are those that were on from the start, when the settings file was dropped,
and those that were recorded since, of which none was refused. -/
structure Follows (closed : List (List Component × Access)) (p₀ : Project)
    (old : Entries String Json.Value) (refused : List String) (s : Settings) (p : Project) :
    Prop where
  accepted : refused = []
  memory : p.InMemory closed
  base : p.base = p₀.base
  user : readFile p userPath = readFile p₀ userPath
  version : s.version = none
  distinct : s.recorded.Distinct
  file : FileAfter p₀ old s.recorded p
  recorded : ∀ flag b, s.recorded.get? flag = some b → b = true ∧ (load p₀).feature flag = false
  inForce : ∀ flag, s.feature flag = (s.recorded.has flag || (load p₀).feature flag)

namespace Follows

variable {p₀ : Project} {old : Entries String Json.Value}

theorem load (D : Drops closed p old) : Follows closed p old [] (load p) p := by
  have hrecorded : (Settings.load p).recorded = [] := by
    show (readFile p recordedPath).features = []
    rw [D.dropped]
  refine ⟨rfl, D.memory, rfl, rfl, ?_, distinct_load p, ?_, fun flag b hflag => ?_,
    fun flag => ?_⟩
  · show (readFile p recordedPath).version = none
    rw [D.dropped]
  · rw [hrecorded]
    by_cases hread : p.store.Denies (recordedPath.locate p.base) .read
    · have hcontent := D.memory.content?_eq recordedPath
      rw [if_pos hread] at hcontent
      exact .denied hread (by simpa using hcontent)
    · exact .untouched hread rfl rfl
  · rw [hrecorded] at hflag
    cases hflag
  · rw [hrecorded]
    rfl

/-- What leaves the settings files alone changes nothing here. -/
theorem move (F : Follows closed p₀ old refused s p) (S : p.SameSettings closed p') :
    Follows closed p₀ old refused s p' where
  accepted := F.accepted
  memory := S.after
  base := S.recorded.1.trans F.base
  user := S.readFile_user.trans F.user
  version := F.version
  distinct := F.distinct
  file := F.file.congr (S.before.content?_congr S.after S.recorded)
  recorded := F.recorded
  inForce := F.inForce

theorem switch_ok (D : Drops closed p₀ old) (F : Follows closed p₀ old refused s p)
    (hoff : s.feature flag = false) (h : (s.setFeature flag true).record p = (p', none)) :
    Follows closed p₀ old refused (s.setFeature flag true) p' := by
  have hmemory : p'.InMemory closed := by
    have hrecord := record_inMemory F.memory (s.setFeature flag true)
    rwa [h] at hrecord
  obtain ⟨hbase, hothers⟩ := record_others h
  rw [F.inForce, Bool.or_eq_false_iff] at hoff
  refine ⟨F.accepted, hmemory, hbase.trans F.base, ?_, F.version,
    distinct_setFeature F.distinct flag true,
    F.file.record D.held D.memory F.memory F.base F.version F.distinct h,
    fun other b hother => ?_, fun other => ?_⟩
  · exact (readFile_congr F.memory hmemory ⟨hbase, hothers userPath (by decide)⟩).trans F.user
  · have hget : (s.setFeature flag true).recorded.get? other =
        if flag = other then some true else s.recorded.get? other := Entries.get?_put ..
    rw [hget] at hother
    split at hother
    next hsame => exact ⟨(Option.some.inj hother).symm, hsame ▸ hoff.2⟩
    · exact F.recorded other b hother
  · have hget : (s.setFeature flag true).recorded.get? other =
        if flag = other then some true else s.recorded.get? other := Entries.get?_put ..
    rw [feature_setFeature]
    unfold Entries.has
    rw [hget]
    split
    · rfl
    · exact F.inForce other

/-- Every recording is accepted. -/
theorem not_refuses (D : Drops closed p₀ old) (F : Follows closed p₀ old refused s p) :
    ¬Refuses p := by
  rintro (⟨e, herror⟩ | hdenied)
  · obtain ⟨document, hdocument⟩ := F.file.oldDocument_ok D.held F.base
    cases herror.symm.trans hdocument
  · rw [F.base] at hdenied
    exact D.writable ((D.memory.denies_iff F.memory _ _).mp hdenied)

theorem invariant (D : Drops closed p₀ old) : FlagInvariant closed (Follows closed p₀ old) where
  memory F := F.memory
  move F S := F.move S
  switch_ok F hoff h := F.switch_ok D hoff h
  switch_refused F _ h := by
    refine absurd ?_ (F.not_refuses D)
    rw [← record_refused_iff F.memory, h]
    simp

/-- A file that is not taken up counts for nothing, as before. -/
theorem feature_load_of_dropped (D : Drops closed p₀ old) (F : Follows closed p₀ old refused s p)
    (h : ¬s.TakenUp p₀) (flag : String) :
    (Settings.load p).feature flag = (Settings.load p₀).feature flag := by
  obtain ⟨-, hdropped⟩ := F.file.readFile D.held D.dropped
  rw [feature_load_eq p, feature_load_eq p₀, F.user, hdropped h, D.dropped]

/-- A file that is taken up counts for the recorded flags, and for what it says of others. -/
theorem feature_load_of_takenUp (D : Drops closed p₀ old) (F : Follows closed p₀ old refused s p)
    (h : s.TakenUp p₀) (flag : String) :
    (Settings.load p).feature flag =
      (((readFile p₀ userPath).features.get? flag).or
        ((((s.recorded.get? flag).map some).or (flagSaid? old flag)).join.or
          (defaultFlags.get? flag))).getD false := by
  obtain ⟨htaken, -⟩ := F.file.readFile D.held D.dropped
  rw [feature_load_eq p, F.user, htaken h]

theorem turnsOff_iff (D : Drops closed p₀ old) :
    TurnsOff p₀ flag ↔ (readFile p₀ userPath).features.get? flag = none ∧
      flagSaid? old flag = some (some false) := by
  refine and_congr_right fun _ => ⟨?_, fun h => ⟨old, D.held, h⟩⟩
  rintro ⟨document, hdocument, h⟩
  cases D.held.symm.trans hdocument
  exact h

/-- A flag that was recorded is found exactly where the file is taken up. -/
theorem feature_load_recorded (D : Drops closed p₀ old) (F : Follows closed p₀ old refused s p)
    (hallows : UserAllows p flag) {b : Bool} (hflag : s.recorded.get? flag = some b) :
    (Settings.load p).feature flag = true ↔ s.TakenUp p₀ := by
  obtain ⟨rfl, hbefore⟩ := F.recorded flag b hflag
  unfold UserAllows at hallows
  rw [F.user] at hallows
  by_cases htaken : s.TakenUp p₀
  · refine iff_of_true ?_ htaken
    rw [F.feature_load_of_takenUp D htaken, hflag]
    cases huser : (readFile p₀ userPath).features.get? flag with
    | none => rfl
    | some enabled =>
        cases enabled with
        | true => rfl
        | false => exact absurd huser hallows
  · refine iff_of_false ?_ htaken
    rw [F.feature_load_of_dropped D htaken, hbefore]
    exact Bool.false_ne_true

/-- A flag that was on from the start is found unless the file is taken up and turns it off. -/
theorem feature_load_kept (D : Drops closed p₀ old) (F : Follows closed p₀ old refused s p)
    (hflag : s.recorded.get? flag = none) (hbefore : (Settings.load p₀).feature flag = true) :
    (Settings.load p).feature flag = true ↔ (s.TakenUp p₀ → ¬TurnsOff p₀ flag) := by
  by_cases htaken : s.TakenUp p₀
  · rw [feature_load_eq, D.dropped] at hbefore
    rw [F.feature_load_of_takenUp D htaken, hflag, turnsOff_iff D, imp_iff_right htaken]
    cases huser : (readFile p₀ userPath).features.get? flag with
    | some enabled =>
        rw [huser] at hbefore
        simpa using hbefore
    | none =>
        rw [huser] at hbefore
        rcases hsaid : flagSaid? old flag with _ | _ | enabled
        · simpa using hbefore
        · simpa using hbefore
        · cases enabled <;> simp
  · rw [F.feature_load_of_dropped D htaken]
    exact iff_of_true hbefore fun h => absurd h htaken

/-- **A flag in force that the user does not turn off is found exactly where it is restored.** -/
theorem feature_load_iff (D : Drops closed p₀ old) (F : Follows closed p₀ old refused s p)
    (hallows : UserAllows p flag) (hon : s.feature flag = true) :
    (Settings.load p).feature flag = true ↔ s.Restores p₀ flag := by
  rw [F.inForce, Bool.or_eq_true] at hon
  cases hflag : s.recorded.get? flag with
  | some b =>
      have hhas : s.recorded.has flag = true := by
        unfold Entries.has
        rw [hflag]
        rfl
      rw [F.feature_load_recorded D hallows hflag]
      exact ⟨fun h => ⟨fun _ => h, fun hnot => by simp [hhas] at hnot⟩,
        fun R => R.recorded hhas⟩
  | none =>
      have hhas : s.recorded.has flag = false := by
        unfold Entries.has
        rw [hflag]
        rfl
      rw [F.feature_load_kept D hflag (by simpa [hhas] using hon)]
      exact ⟨fun h => ⟨fun hnot => by simp [hhas] at hnot, fun _ => h⟩,
        fun R => R.kept hhas⟩

end Follows

end Settings

end Upkeep
