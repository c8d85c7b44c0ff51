/-
The version marker of a batch that fails.

A batch that stops in one of its steps leaves the marker alone, in memory and in the
project.  Its end is another matter: the version in memory moves before it is recorded, and
it is recorded before the checkpoint is asked for, so a refused recording or a failing
checkpoint comes too late to take it back.  What is left then is the marker of before only
where it could not move at all.
-/
import Upkeep.Proofs.Pipeline.Frame
import Upkeep.Proofs.Settings.Record

namespace Upkeep

namespace Session

/-- The steps of a batch, run to the last or to the first that fails. -/
def batch (c : Collaborators) (s : Session) (ms : List Migration) (raw : Options) :
    Session × Except RunError (List Outcome) :=
  (s.note (.notice (announcement ms))).runSteps c raw ms

/-- A step of the batch fails. -/
def StepFails (c : Collaborators) (s : Session) (ms : List Migration) (raw : Options) : Prop :=
  ∃ e, (s.batch c ms raw).2 = .error e

/-- The checkpoint that is asked for next is refused under this message. -/
def CheckpointFails (c : Collaborators) (s : Session) (message : String) : Prop :=
  ∃ commit e, c.checkpoint = some commit ∧ commit (s.count Event.isCommit) message = .error e

/-- The version marker is the one of before, in the settings in memory and in the file that
records it. -/
def MarkerKept {α : Type} (s : Session) (settings : Settings) (ran : Ran α) : Prop :=
  ran.settings.version = settings.version ∧
    ran.session.project.held Settings.recordedPath = s.project.held Settings.recordedPath

variable {c : Collaborators} {s : Session} {ms : List Migration} {raw : Options}

theorem batch_sameAt {q : ProjectPath} (h : ∀ m ∈ ms, m.codemod.Spares q) (s : Session)
    (raw : Options) : s.project.SameAt q (s.batch c ms raw).1.project :=
  runSteps_sameAt h _ raw

/-! ### The end of a batch -/

theorem record_fst (s : Session) (settings : Settings) :
    (s.record settings).1 = { s with project := (settings.record s.project).1 } := by
  unfold record
  rcases settings.record s.project with ⟨project, _ | e⟩ <;> rfl

theorem record_error_iff (s : Session) (settings : Settings) :
    (∃ e, (s.record settings).2 = .error e) ↔ (settings.record s.project).2 ≠ none := by
  unfold record
  rcases settings.record s.project with ⟨project, _ | e⟩ <;> simp

theorem checkpoint_error_iff (s : Session) (name message : String) :
    (∃ e, (s.checkpoint c name message).2 = .error e) ↔ s.CheckpointFails c message := by
  unfold checkpoint CheckpointFails
  cases c.checkpoint with
  | none => simp
  | some commit =>
      simp only
      rcases hcommit : commit (s.count Event.isCommit) message with e | done
      · simp [hcommit]
      · simp [hcommit]

/-- The end of a batch has the new version in memory and what was recorded in the project,
whatever it answers. -/
theorem recordVersion_marker (s : Session) (version : String) (settings : Settings)
    (outcomes : List Outcome) :
    (s.recordVersion c version settings outcomes).settings.version = some version ∧
      (s.recordVersion c version settings outcomes).session.project =
        (Settings.record { settings with version := some version } s.project).1 := by
  have hrecord := record_fst s { settings with version := some version }
  unfold recordVersion
  simp only
  rcases hr : s.record { settings with version := some version } with ⟨s', e | done⟩
  · rw [hr] at hrecord
    exact ⟨rfl, congrArg Session.project hrecord⟩
  · rw [hr] at hrecord
    have hproject := congrArg Session.project hrecord
    have hcheckpoint :=
      checkpoint_project (c := c) s' Settings.recordedPath.text (versionMessage version)
    simp only
    rcases hc : s'.checkpoint c Settings.recordedPath.text (versionMessage version) with
      ⟨s'', e | done⟩
    · rw [hc] at hcheckpoint
      exact ⟨rfl, hcheckpoint.trans hproject⟩
    · rw [hc] at hcheckpoint
      exact ⟨rfl, hcheckpoint.trans hproject⟩

/-- Recording is no event, so the checkpoint that is asked for after it is the one that
would have been asked for before. -/
theorem checkpointFails_record (s : Session) (settings : Settings) (message : String) :
    (s.record settings).1.CheckpointFails c message ↔ s.CheckpointFails c message := by
  rw [record_fst]
  exact Iff.rfl

/-- The end of a batch fails where recording is refused or the checkpoint after it fails. -/
theorem recordVersion_error_iff (s : Session) (version : String) (settings : Settings)
    (outcomes : List Outcome) :
    (∃ e, (s.recordVersion c version settings outcomes).result = .error e) ↔
      (Settings.record { settings with version := some version } s.project).2 ≠ none ∨
        s.CheckpointFails c (versionMessage version) := by
  have hrecord := record_error_iff s { settings with version := some version }
  have hfails := checkpointFails_record (c := c) s { settings with version := some version }
    (versionMessage version)
  unfold recordVersion
  simp only
  rcases hr : s.record { settings with version := some version } with ⟨s', e | done⟩
  · rw [hr] at hrecord
    exact iff_of_true ⟨e, rfl⟩ (.inl (hrecord.mp ⟨e, rfl⟩))
  · rw [hr] at hrecord hfails
    have hdone :
        ¬(Settings.record { settings with version := some version } s.project).2 ≠ none := by
      rw [← hrecord]
      simp
    rw [or_iff_right hdone, ← hfails,
      ← checkpoint_error_iff s' Settings.recordedPath.text (versionMessage version)]
    simp only
    rcases s'.checkpoint c Settings.recordedPath.text (versionMessage version) with
      ⟨s'', e | done⟩
    · exact iff_of_true ⟨e, rfl⟩ ⟨e, rfl⟩
    · simp

/-! ### The batch as a whole -/

theorem stepFails_or (s : Session) (ms : List Migration) (raw : Options) :
    s.StepFails c ms raw ∨ ∃ outcomes, (s.batch c ms raw).2 = .ok outcomes := by
  unfold StepFails
  rcases (s.batch c ms raw).2 with e | outcomes
  · exact .inl ⟨e, rfl⟩
  · exact .inr ⟨outcomes, rfl⟩

theorem not_stepFails {outcomes : List Outcome} (h : (s.batch c ms raw).2 = .ok outcomes) :
    ¬s.StepFails c ms raw := by
  rintro ⟨e, he⟩
  rw [h] at he
  simp at he

theorem runMigrations_of_error {e : RunError} (h : (s.batch c ms raw).2 = .error e)
    (version : String) (settings : Settings) :
    s.runMigrations c ms version settings raw = ⟨(s.batch c ms raw).1, settings, .error e⟩ := by
  unfold batch at h ⊢
  unfold runMigrations
  rcases hrun : (s.note (.notice (announcement ms))).runSteps c raw ms with ⟨s', answer⟩
  rw [hrun] at h
  cases h
  rfl

theorem runMigrations_of_ok {outcomes : List Outcome} (h : (s.batch c ms raw).2 = .ok outcomes)
    (version : String) (settings : Settings) :
    s.runMigrations c ms version settings raw =
      (s.batch c ms raw).1.recordVersion c version settings outcomes := by
  unfold batch at h ⊢
  unfold runMigrations
  rcases hrun : (s.note (.notice (announcement ms))).runSteps c raw ms with ⟨s', answer⟩
  rw [hrun] at h
  cases h
  rfl

/-- A batch fails in a step, in recording the version, or in the checkpoint after that. -/
theorem runMigrations_error_iff (s : Session) (version : String) (settings : Settings) :
    (∃ e, (s.runMigrations c ms version settings raw).result = .error e) ↔
      s.StepFails c ms raw ∨
        (Settings.record { settings with version := some version }
          (s.batch c ms raw).1.project).2 ≠ none ∨
        (s.batch c ms raw).1.CheckpointFails c (versionMessage version) := by
  rcases stepFails_or (c := c) s ms raw with ⟨e, he⟩ | ⟨outcomes, hok⟩
  · rw [runMigrations_of_error he]
    exact iff_of_true ⟨e, rfl⟩ (.inl ⟨e, he⟩)
  · rw [runMigrations_of_ok hok, or_iff_right (not_stepFails hok)]
    exact recordVersion_error_iff _ version settings outcomes

theorem markerKept_iff (s : Session) (version : String) (settings : Settings)
    (hspares : ∀ m ∈ ms, m.codemod.Spares Settings.recordedPath) :
    s.MarkerKept settings (s.runMigrations c ms version settings raw) ↔
      s.StepFails c ms raw ∨
        settings.version = some version ∧ settings.RecordsNothing (s.batch c ms raw).1.project := by
  obtain ⟨-, hbatch⟩ := batch_sameAt (c := c) hspares s raw
  rcases stepFails_or (c := c) s ms raw with ⟨e, he⟩ | ⟨outcomes, hok⟩
  · rw [runMigrations_of_error he]
    exact iff_of_true ⟨rfl, hbatch⟩ (.inl ⟨e, he⟩)
  · obtain ⟨hversion, hproject⟩ :=
      recordVersion_marker (c := c) (s.batch c ms raw).1 version settings outcomes
    rw [runMigrations_of_ok hok, or_iff_right (not_stepFails hok)]
    unfold MarkerKept
    rw [hversion, hproject, ← hbatch, eq_comm (a := some version)]
    refine and_congr_right fun hsame => ?_
    rw [← Settings.record_held_iff, ← hsame]

/--
**A batch keeps the version marker exactly where one of its steps fails, or where the marker
has nowhere to move**, though it also fails where the new version cannot be recorded and
where the checkpoint after that is refused: a refused recording leaves the file alone, but
not the version in memory, and a failing checkpoint takes nothing back.  The codemods may do
whatever they like to other files, the store may refuse any access, and the collaborators
may answer anything.
-/
theorem runMigrations_error_and_marker (c : Collaborators) (s : Session) (ms : List Migration)
    (version : String) (settings : Settings) (raw : Options)
    (hspares : ∀ m ∈ ms, m.codemod.Spares Settings.recordedPath) :
    ((∃ e, (s.runMigrations c ms version settings raw).result = .error e) ↔
      s.StepFails c ms raw ∨
        (Settings.record { settings with version := some version }
          (s.batch c ms raw).1.project).2 ≠ none ∨
        (s.batch c ms raw).1.CheckpointFails c (versionMessage version)) ∧
    (s.MarkerKept settings (s.runMigrations c ms version settings raw) ↔
      s.StepFails c ms raw ∨
        settings.version = some version ∧
          settings.RecordsNothing (s.batch c ms raw).1.project) :=
  ⟨runMigrations_error_iff s version settings, markerKept_iff s version settings hspares⟩

/-- The migration that changes nothing, under a checkpoint that is refused: the version has
moved although the batch fails. -/
theorem runMigrations_marker_moves :
    let p : Project := .ofTexts [(".config/.cprc.json", "\x7b\"version\":\"1.0.0\"\x7d\n")]
    let refusing : Collaborators :=
      { Collaborators.none with checkpoint := some fun _ _ => .error (.raised "no identity" []) }
    let idle : Migration := ⟨"001-idle", "1.1.0", "Nothing", .ofEdit "idle" none fun o _ => .ok o⟩
    let settings := Settings.load p
    let ran := (start p).runMigrations refusing [idle] "1.2.0" settings []
    (∀ m ∈ [idle], m.codemod.Spares Settings.recordedPath) ∧
      (∃ e, ran.result = .error e) ∧ ¬(start p).MarkerKept settings ran := by
  intro p refusing idle settings ran
  have hspares : ∀ m ∈ [idle], m.codemod.Spares Settings.recordedPath := by
    intro m hm
    rw [List.mem_singleton.mp hm]
    exact fun p options => ⟨.refl p, rfl⟩
  have hsteps : ((start p).batch refusing [idle] []).2.toOption.isSome = true := by decide +kernel
  have hversion : settings.version = some "1.0.0" := by decide +kernel
  obtain ⟨herror, hmarker⟩ :=
    runMigrations_error_and_marker refusing (start p) [idle] "1.2.0" settings [] hspares
  refine ⟨hspares, herror.mpr (.inr (.inr ⟨_, _, rfl, rfl⟩)), fun hkept => ?_⟩
  rcases hmarker.mp hkept with ⟨e, he⟩ | ⟨hsame, -⟩
  · rw [he] at hsteps
    exact Bool.noConfusion hsteps
  · rw [hversion] at hsame
    exact absurd hsame (by decide)

end Session

end Upkeep
