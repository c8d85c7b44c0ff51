/-
What the stages of a step add to the trace.

Each stage has one equation: what it appends, and nothing besides.  Formatting asks about the
pending files in their order and installing is told before it is done; both note a failure
right after the call that failed.  All these events stand on the project as the stage before
left it, so the calls of the formatter are made before any change is carried out, and the
report and the installation after all of them.
-/
import Upkeep.Proofs.Pipeline.Formatting

namespace Upkeep

namespace Collaborators

variable (c : Collaborators)

/-- The events of asking about a file as one more after so many: the call, and a notice if it
fails. -/
def askingOne (p : Project) (n : Nat) (file : ProjectPath × String) : List Moment :=
  ⟨.format file.1 file.2, p⟩ ::
    match c.format n file.1 file.2 with
    | .error e => [⟨.notice s!"Failed to format {file.1.text}: {e.oneLine}", p⟩]
    | .ok _ => []

/-- The events of asking about files in turn, the first after so many others. -/
def asking (p : Project) : Nat → List (ProjectPath × String) → List Moment
  | _, [] => []
  | n, file :: files => c.askingOne p n file ++ asking p (n + 1) files

/-- The events of an installation after so many others: it is announced and made, with a notice
if it fails. -/
def installing (p : Project) (n : Nat) : List Moment :=
  [⟨.notice "Installing NPM dependencies...", p⟩, ⟨.install, p⟩] ++
    match c.install n p with
    | .error e => [⟨.notice s!"Failed to install dependencies: {e.oneLine}", p⟩]
    | .ok () => []

/-- The events of a checkpoint, if checkpoints are wanted. -/
def committing (p : Project) (message : String) : List Moment :=
  match c.checkpoint with
  | some _ => [⟨.commit message, p⟩]
  | .none => []

end Collaborators

namespace Session

variable {c : Collaborators} {s s' : Session} {step : Step} {raw : Options} {o : Overlay}
  {e : RunError} {outcome : Outcome}

/-- The session with more events. -/
def tell (s : Session) (events : List Moment) : Session := { s with trace := s.trace ++ events }

theorem tell_nil (s : Session) : s.tell [] = s := by
  unfold tell
  rw [List.append_nil]

theorem tell_tell (s : Session) (xs ys : List Moment) :
    (s.tell xs).tell ys = s.tell (xs ++ ys) := by
  unfold tell
  rw [List.append_assoc]

theorem note_eq (s : Session) (e : Event) : s.note e = s.tell [⟨e, s.project⟩] := rfl

/-! ### Formatting -/

theorem formatFile_snd (o : Overlay) (s : Session) (file : ProjectPath × String) :
    (formatFile c (o, s) file).2 =
      s.tell (c.askingOne s.project (s.count Event.isFormat) file) := by
  obtain ⟨path, content⟩ := file
  unfold formatFile Collaborators.askingOne
  simp only
  rcases c.format (s.count Event.isFormat) path content with e | _ | formatted
  · show (s.note _).note _ = _
    rw [note_eq, note_eq, tell_tell]
    rfl
  · rfl
  · rfl

theorem foldl_formatFile_snd (files : List (ProjectPath × String)) (o : Overlay) (s : Session) :
    (files.foldl (formatFile c) (o, s)).2 =
      s.tell (c.asking s.project (s.count Event.isFormat) files) := by
  induction files generalizing o s with
  | nil => exact (tell_nil s).symm
  | cons file files ih =>
      have hone := formatFile_snd (c := c) o s file
      have hcount := count_formatFile (c := c) o s file
      rcases hfile : formatFile c (o, s) file with ⟨o₁, s₁⟩
      rw [hfile] at hone hcount
      simp only at hone hcount
      rw [List.foldl_cons, hfile, ih, hcount, hone, tell_tell]
      rfl

/-- Formatting asks about the pending files in their order, and changes nothing else. -/
theorem formatAll_snd (s : Session) (o : Overlay) :
    (s.formatAll c o).2 = s.tell (c.asking s.project (s.count Event.isFormat) o.pendingFiles) :=
  foldl_formatFile_snd o.pendingFiles o s

/-! ### Installing -/

/-- The content that the changes give the manifest, if they write it. -/
def manifestText? (changes : ChangeSet) : Option String :=
  (changes.get? manifestPath).bind Pending.content?

/-- The content for which packages are to be installed: the one that the changes give the
manifest, unless the last installation was made for it. -/
def due? (s : Session) (changes : ChangeSet) : Option String :=
  (manifestText? changes).filter fun content => s.installed ≠ some content

theorem install_of_not_due (h : s.due? o.records = none) : s.install c o = (s, false) := by
  unfold due? manifestText? at h
  unfold install
  rcases hmanifest : (o.records.get? manifestPath).bind Pending.content? with _ | content
  · rfl
  · rw [hmanifest, Option.filter_some] at h
    have hsame : s.installed = some content := by
      by_contra hne
      simp [hne] at h
    simp only [hsame, if_true]

/-- An installation that is due is made, and its content is kept whatever comes of it. -/
theorem install_of_due {content : String} (h : s.due? o.records = some content) :
    (s.install c o).1 =
      ({ s with installed := some content }.tell
        (c.installing s.project (s.count Event.isInstall))) := by
  obtain ⟨hmanifest, hne⟩ := Option.filter_eq_some_iff.mp h
  have hne : s.installed ≠ some content := by simpa using hne
  unfold install Collaborators.installing
  rw [show (o.records.get? manifestPath).bind Pending.content? = some content from hmanifest]
  simp only [if_neg hne]
  rcases c.install (s.count Event.isInstall) s.project with e | _
  · simp only [note_eq, tell_tell]
    rfl
  · simp only [note_eq, tell_tell]
    rfl

/-! ### Checkpoints -/

theorem checkpoint_fst (s : Session) (name message : String) :
    (s.checkpoint c name message).1 = s.tell (c.committing s.project message) := by
  unfold checkpoint Collaborators.committing
  cases c.checkpoint with
  | none => exact (tell_nil s).symm
  | some commit =>
      simp only
      rcases commit (s.count Event.isCommit) message with e | _ <;> rfl

theorem commitStep_fst (s : Session) (step : Step) (outcome : Outcome) :
    (s.commitStep c step outcome).1 = s.tell (c.committing s.project step.commitMessage) := by
  have hfst := checkpoint_fst (c := c) s step.name step.commitMessage
  unfold commitStep
  rcases h : s.checkpoint c step.name step.commitMessage with ⟨s', e | committed⟩
  · rwa [h] at hfst
  · rwa [h] at hfst

/-! ### A step up to its checkpoint -/

/-- The session in which the changes of a step are reported, once they have led to this store. -/
def reported (c : Collaborators) (s : Session) (step : Step) (o : Overlay) (changes : ChangeSet)
    (flushed : Store) : Session :=
  let asked := c.asking s.project (s.count Event.isFormat) o.pendingFiles
  let report : Moment := ⟨.report step.name step.description changes, s.project.atop flushed⟩
  (s.atop flushed).tell (asked ++ [report])

/-- Changes that are carried out are reported, and then packages are installed. -/
theorem carryOut_reported (h : s.carryOut c step o = (s', .ok outcome)) :
    ∃ flushed, outcome.changes = (s.formatAll c o).1.records ∧
      o.project.applyAll outcome.changes = (flushed, none) ∧
      s' = ((s.reported c step o outcome.changes flushed.store).install c
        ⟨flushed, outcome.changes⟩).1 := by
  obtain ⟨hoverlay, -⟩ := formatAll_projects (c := c) s o
  have hsession := formatAll_snd (c := c) s o
  unfold carryOut at h
  rcases hformat : s.formatAll c o with ⟨o', s₁⟩
  rw [hformat] at h hoverlay hsession
  simp only at h hoverlay hsession ⊢
  unfold flush Overlay.flush at h
  rw [hoverlay] at h
  rcases hflush : o.project.applyAll o'.records with ⟨flushed, _ | refused⟩
  · rw [hflush] at h
    have hreported : (s₁.atop flushed.store).note
        (.report step.name step.description o'.records) =
          s.reported c step o o'.records flushed.store := by
      rw [hsession, note_eq]
      unfold reported
      rw [← tell_tell]
      rfl
    simp only [hreported] at h
    cases h
    exact ⟨flushed, rfl, hflush, rfl⟩
  · rw [hflush] at h
    simp at h

/-- A change that is refused ends the step before anything is reported. -/
theorem carryOut_error (h : s.carryOut c step o = (s', .error e)) :
    (∃ refused, e = .flush step.name refused) ∧ s'.installed = s.installed ∧
      s'.trace = s.trace ++ c.asking s.project (s.count Event.isFormat) o.pendingFiles := by
  have hsession := formatAll_snd (c := c) s o
  unfold carryOut at h
  rcases hformat : s.formatAll c o with ⟨o', s₁⟩
  rw [hformat] at h hsession
  simp only at h hsession
  unfold flush at h
  rcases hflush : o'.flush with ⟨project, _ | refused⟩
  · rw [hflush] at h
    simp at h
  · rw [hflush] at h
    cases h
    rw [hsession]
    exact ⟨⟨refused, rfl⟩, rfl, rfl⟩

/-- The changes of a step are carried out on the project that its codemod left. -/
theorem apply_ok (h : s.apply c step raw = (s', .ok outcome)) :
    ∃ o flushed, (s.execute step raw).2 = .ok o ∧
      outcome.changes = s.changes c raw step o ∧
      o.project.applyAll outcome.changes = (flushed, none) ∧
      s' = (((s.atop o.project.store).reported c step o outcome.changes flushed.store).install c
        ⟨flushed, outcome.changes⟩).1 := by
  unfold apply at h
  rcases hexecute : s.execute step raw with ⟨s₁, e | o⟩
  · rw [hexecute] at h
    simp at h
  have hs₁ := execute_eq (by rw [hexecute])
  rw [hexecute] at h hs₁
  obtain ⟨rfl, -⟩ := Prod.mk.inj hs₁
  obtain ⟨flushed, hchanges, hcarried, hs'⟩ := carryOut_reported h
  refine ⟨o, flushed, rfl, ?_, hcarried, hs'⟩
  rw [hchanges]
  unfold changes
  rw [hexecute]

/-- A step whose changes are not carried out has told nothing but what it asked the formatter,
and nothing at all where its codemod was not run or stopped. -/
theorem apply_error (h : s.apply c step raw = (s', .error e)) :
    s'.installed = s.installed ∧
      ((∃ (o : Overlay) (refused : FlushError), e = .flush step.name refused ∧
          s'.trace = s.trace ++
            c.asking (s.leaves step raw) (s.count Event.isFormat) o.pendingFiles) ∨
        ((∃ refused, e = .validation refused) ∨ ∃ cause, e = .execution step.name cause) ∧
          s'.trace = s.trace) := by
  unfold apply at h
  rcases hexecute : s.execute step raw with ⟨s₁, e₁ | o⟩
  · have herror := execute_error (by rw [hexecute])
    rw [hexecute] at h herror
    cases h
    rcases herror with ⟨refused, rfl, hs⟩ | ⟨cause, rfl, hs⟩
    · simp only at hs
      rw [hs]
      exact ⟨rfl, .inr ⟨.inl ⟨refused, rfl⟩, rfl⟩⟩
    · simp only at hs
      rw [hs]
      exact ⟨rfl, .inr ⟨.inr ⟨cause, rfl⟩, rfl⟩⟩
  · have hok : (s.execute step raw).2 = .ok o := by rw [hexecute]
    have hs₁ := execute_eq hok
    rw [hexecute] at h hs₁
    obtain ⟨rfl, -⟩ := Prod.mk.inj hs₁
    simp only at h
    obtain ⟨⟨refused, rfl⟩, hinstalled, htrace⟩ := carryOut_error h
    rw [execute_ok hok]
    exact ⟨hinstalled, .inl ⟨o, refused, rfl, htrace⟩⟩

end Session

end Upkeep
