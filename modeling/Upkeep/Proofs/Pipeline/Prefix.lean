/-
What a batch leaves that stops.

A step ends in one of five ways, and `runStep_cases` says for each what has become of the
project: nothing beyond what the codemod itself did where the options are refused or the
codemod stops, the changes before the refused one where carrying them out is refused, and
all changes where only the checkpoint fails.  A batch is its steps one after the other, so
by induction over the list the steps before the failing one are done in turn, and the ones
after it have no say in anything.

What the codemod did is what it carried out on its way.  An edit carries nothing out, and
where it stops the project is the one that the step before left.
-/
import Upkeep.Proofs.Overlay.PartialFlush
import Upkeep.Proofs.Pipeline.Marker

namespace Upkeep

/-- However a run of the codemod ends, the project is left as it was. -/
def Codemod.CarriesNothingOut (c : Codemod) : Prop :=
  ∀ o options,
    match c.run o options with
    | .ok o' => o'.project = o.project
    | .error halt => halt.project = o.project

/-- The codemod is an edit by calls on the overlay. -/
inductive Codemod.IsEdit : Codemod → Prop
  | ofEdit {name : String} {schema : Option Schema}
      {edit : Overlay → Options → Except Failure Overlay}
      (hreaches : ∀ o options o', edit o options = .ok o' → o.Reaches o') :
      IsEdit (.ofEdit name schema edit)

/-- An edit leaves everything pending. -/
theorem Codemod.IsEdit.carriesNothingOut {c : Codemod} (h : c.IsEdit) : c.CarriesNothingOut := by
  cases h with
  | @ofEdit name schema edit hreaches =>
      intro o options
      show match o.halting (edit o options) with
        | .ok o' => o'.project = o.project
        | .error halt => halt.project = o.project
      rcases hedit : edit o options with cause | o'
      · rfl
      · exact (hreaches o options o' hedit).project

namespace Session

variable {c : Collaborators} {raw : Options} {s s' : Session} {step : Step} {o : Overlay}
  {e : RunError} {outcome : Outcome}

/-- The project as the codemod of a step leaves it, at the base of the session. -/
def leaves (s : Session) (step : Step) (raw : Options) : Project := (s.execute step raw).1.project

/-- The changes that a step carries out: those that its codemod left pending, formatted. -/
def changes (c : Collaborators) (raw : Options) (s : Session) (step : Step) (o : Overlay) :
    ChangeSet :=
  ((s.execute step raw).1.formatAll c o).1.records

/-- A step that comes to its end: its codemod has run, and all its changes are carried out on
the project that the codemod left. -/
structure StepDone (c : Collaborators) (raw : Options) (s : Session) (step : Step)
    (outcome : Outcome) (s' : Session) : Prop where
  run : s.runStep c step raw = (s', .ok outcome)
  name : outcome.name = step.name
  executed : ∃ o, (s.execute step raw).2 = .ok o ∧ outcome.changes = s.changes c raw step o ∧
    (s.leaves step raw).Sees o.project outcome.changes s'.project

/-- What a step leaves that fails for this reason.  Options that are refused leave all as it
was, and a codemod that stops leaves what it carried out itself.  A change that is refused
leaves those before it, and a checkpoint that fails comes after all of them. -/
def FailureLeaves (c : Collaborators) (raw : Options) (s : Session) (step : Step) (s' : Session) :
    RunError → Prop
  | .validation _ => s' = s
  | .execution _ _ => s' = { s with project := s.leaves step raw }
  | .flush _ refused => ∃ o done r rest, (s.execute step raw).2 = .ok o ∧
      s.changes c raw step o = done ++ (refused.path, r) :: rest ∧
        (s.leaves step raw).Sees o.project done s'.project
  | .checkpoint _ _ => ∃ o, (s.execute step raw).2 = .ok o ∧
      (s.leaves step raw).Sees o.project (s.changes c raw step o) s'.project
  | .settings _ => False

/-- A step that fails, with what it leaves. -/
structure StepFailed (c : Collaborators) (raw : Options) (s : Session) (step : Step)
    (e : RunError) (s' : Session) : Prop where
  run : s.runStep c step raw = (s', .error e)
  project : FailureLeaves c raw s step s' e

/-! ### The stages of a step -/

theorem leaves_of_carriesNothingOut (step : Step) (h : step.codemod.CarriesNothingOut)
    (s : Session) (raw : Options) : s.leaves step raw = s.project := by
  unfold leaves execute
  split
  · rfl
  next options _ =>
    have hrun := h (.empty s.project) options
    split
    next halt heq =>
      rw [heq] at hrun
      have hsame : halt.project = s.project := hrun
      rw [hsame]
      rfl
    next o heq =>
      rw [heq] at hrun
      have hsame : o.project = s.project := hrun
      rw [hsame]
      rfl

/-- The overlay of a step is what its codemod makes of a fresh one. -/
theorem exists_run_of_execute (h : (s.execute step raw).2 = .ok o) :
    ∃ options, step.codemod.run (.empty s.project) options = .ok o := by
  unfold execute at h
  split at h
  · simp at h
  next options _ =>
    split at h
    · simp at h
    next hrun =>
      cases h
      exact ⟨options, hrun⟩

/-- A codemod that carries nothing out leaves its changes pending on the project of the
session. -/
theorem project_of_carriesNothingOut (hnothing : step.codemod.CarriesNothingOut)
    (h : (s.execute step raw).2 = .ok o) : o.project = s.project := by
  obtain ⟨options, hrun⟩ := exists_run_of_execute h
  have hleft := hnothing (.empty s.project) options
  rwa [hrun] at hleft

/-- The changes that are then seen are changes on the project of the session. -/
theorem undergoes_of_carriesNothingOut (step : Step) {changes : ChangeSet} {p' : Project}
    (hnothing : step.codemod.CarriesNothingOut) (h : (s.execute step raw).2 = .ok o)
    (hsees : (s.leaves step raw).Sees o.project changes p') : s.project.Undergoes changes p' := by
  rw [leaves_of_carriesNothingOut step hnothing, project_of_carriesNothingOut hnothing h] at hsees
  exact hsees.undergoes rfl

/-- Where the codemod succeeds the session goes on with the store that it left. -/
theorem execute_eq (h : (s.execute step raw).2 = .ok o) :
    s.execute step raw = (s.atop o.project.store, .ok o) := by
  unfold execute at h ⊢
  split at h
  · simp at h
  · split at h
    · simp at h
    · cases h
      rfl

theorem execute_ok (h : (s.execute step raw).2 = .ok o) :
    s.leaves step raw = s.project.atop o.project.store := by
  unfold leaves
  rw [execute_eq h]
  rfl

/-- Before anything is carried out a step fails by its options or by its codemod. -/
theorem execute_error (h : (s.execute step raw).2 = .error e) :
    (∃ refused, e = .validation refused ∧ (s.execute step raw).1 = s) ∨
      ∃ cause, e = .execution step.name cause ∧
        (s.execute step raw).1 = { s with project := s.leaves step raw } := by
  unfold leaves
  unfold execute at h ⊢
  split at h
  next refused _ =>
    cases h
    exact .inl ⟨refused, rfl, rfl⟩
  next =>
    split at h
    next halt _ =>
      cases h
      exact .inr ⟨halt.cause, rfl, rfl⟩
    · simp at h

theorem formatAll_projects (s : Session) (o : Overlay) :
    (s.formatAll c o).1.project = o.project ∧ (s.formatAll c o).2.project = s.project := by
  refine formatAll_invariant (P := fun state => state.1.project = o.project ∧
    state.2.project = s.project) ?_ ⟨rfl, rfl⟩
  rintro ⟨o', s'⟩ ⟨path, content⟩ ⟨hoverlay, hsession⟩
  unfold formatFile
  simp only
  split
  next formatted _ =>
    refine ⟨?_, hsession⟩
    split
    · exact hoverlay
    · exact (Overlay.reword_project formatted).trans hoverlay
  next => exact ⟨hoverlay, hsession⟩
  next => exact ⟨hoverlay, hsession⟩

/-- What is carried out is the formatted overlay, on its own project. -/
theorem carryOut_cases (c : Collaborators) (s : Session) (step : Step) (o : Overlay) :
    (∃ s' outcome, s.carryOut c step o = (s', .ok outcome) ∧ outcome.name = step.name ∧
      outcome.changes = (s.formatAll c o).1.records ∧
        s.project.Sees o.project outcome.changes s'.project) ∨
    ∃ s' refused, s.carryOut c step o = (s', .error (.flush step.name refused)) ∧
      ∃ done r rest, (s.formatAll c o).1.records = done ++ (refused.path, r) :: rest ∧
        s.project.Sees o.project done s'.project := by
  obtain ⟨hoverlay, hsession⟩ := formatAll_projects (c := c) s o
  unfold carryOut
  rcases hformat : s.formatAll c o with ⟨o', s'⟩
  rw [hformat] at hoverlay hsession
  simp only at hoverlay hsession ⊢
  have hflush : o'.flush = o.project.applyAll o'.records := by
    unfold Overlay.flush
    rw [hoverlay]
  unfold flush
  rw [hflush, ← hsession]
  rcases hf : o.project.applyAll o'.records with ⟨project, _ | refused⟩
  · refine .inl ⟨_, _, rfl, rfl, rfl, project, Project.applyAll_done hf, ?_⟩
    rw [install_project, note_project]
    rfl
  · obtain ⟨done, r, rest, hrecords, hdone⟩ := Project.applyAll_refused hf
    exact .inr ⟨_, refused, rfl, done, r, rest, hrecords, project, hdone, rfl⟩

/-! ### A step -/

theorem checkpoint_error {name message : String}
    (h : (s.checkpoint c name message).2 = .error e) : ∃ cause, e = .checkpoint name cause := by
  unfold checkpoint at h
  split at h
  · simp at h
  · simp only at h
    split at h
    · simp at h
    next cause _ =>
      cases h
      exact ⟨cause, rfl⟩

/-- The checkpoint after a step only says in the outcome whether it was recorded. -/
theorem commitStep_cases (s : Session) (step : Step) (outcome : Outcome) :
    (∃ s' committed, s.commitStep c step outcome = (s', .ok { outcome with committed }) ∧
      s'.project = s.project) ∨
    ∃ s' cause, s.commitStep c step outcome = (s', .error (.checkpoint step.name cause)) ∧
      s'.project = s.project := by
  have hproject := commitStep_project (c := c) s step outcome
  unfold commitStep at hproject ⊢
  rcases hcheckpoint : s.checkpoint c step.name step.commitMessage with ⟨s', e | committed⟩
  · rw [hcheckpoint] at hproject
    obtain ⟨cause, rfl⟩ := checkpoint_error (by rw [hcheckpoint])
    exact .inr ⟨s', cause, rfl, hproject⟩
  · rw [hcheckpoint] at hproject
    exact .inl ⟨s', committed, rfl, hproject⟩

/-- A step up to its checkpoint: its changes are carried out on what its codemod left, or it
has failed before. -/
theorem apply_cases (c : Collaborators) (raw : Options) (s : Session) (step : Step) :
    (∃ s' outcome, s.apply c step raw = (s', .ok outcome) ∧ outcome.name = step.name ∧
      ∃ o, (s.execute step raw).2 = .ok o ∧ outcome.changes = s.changes c raw step o ∧
        (s.leaves step raw).Sees o.project outcome.changes s'.project) ∨
    ∃ s' e, s.apply c step raw = (s', .error e) ∧ FailureLeaves c raw s step s' e := by
  rcases hexecute : s.execute step raw with ⟨s₁, e | o⟩
  · have happly : s.apply c step raw = (s₁, .error e) := by
      unfold apply
      rw [hexecute]
    have herror := execute_error (by rw [hexecute])
    rw [hexecute] at herror
    refine .inr ⟨s₁, e, happly, ?_⟩
    rcases herror with ⟨refused, rfl, hs⟩ | ⟨cause, rfl, hs⟩
    · exact hs
    · exact hs
  have hok : (s.execute step raw).2 = .ok o := by rw [hexecute]
  have hleaves : s.leaves step raw = s₁.project := by
    unfold leaves
    rw [hexecute]
  have hchanges : s.changes c raw step o = (s₁.formatAll c o).1.records := by
    unfold changes
    rw [hexecute]
  have happly : s.apply c step raw = s₁.carryOut c step o := by
    unfold apply
    rw [hexecute]
  rw [happly, hleaves]
  rcases carryOut_cases c s₁ step o with
    ⟨s₂, outcome, hcarry, hname, houtcome, hproject⟩ |
    ⟨s₂, refused, hcarry, done, r, rest, hrecords, hproject⟩
  · exact .inl ⟨s₂, outcome, hcarry, hname, o, rfl, houtcome.trans hchanges.symm, hproject⟩
  · rw [← hleaves] at hproject
    exact .inr ⟨s₂, _, hcarry, o, done, r, rest, hok, hchanges.trans hrecords, hproject⟩

/-- **A step is done, or fails in one of four ways.** -/
theorem runStep_cases (c : Collaborators) (raw : Options) (s : Session) (step : Step) :
    (∃ outcome s', StepDone c raw s step outcome s') ∨ ∃ e s', StepFailed c raw s step e s' := by
  rcases apply_cases c raw s step with
    ⟨s₁, outcome, happly, hname, o, hok, hchanges, hproject⟩ | ⟨s₁, e, happly, hleaves⟩
  · by_cases hnone : outcome.changes = []
    · -- A step without changes is not recorded.
      refine .inl ⟨outcome, s₁, ?_, hname, o, hok, hchanges, hproject⟩
      unfold runStep
      rw [happly]
      exact if_pos hnone
    have hrun : s.runStep c step raw = s₁.commitStep c step outcome := by
      unfold runStep
      rw [happly]
      exact if_neg hnone
    rcases commitStep_cases (c := c) s₁ step outcome with
      ⟨s₂, committed, hcommit, hsame⟩ | ⟨s₂, cause, hcommit, hsame⟩
    · refine .inl ⟨_, s₂, hrun.trans hcommit, hname, o, hok, hchanges, ?_⟩
      rw [hsame]
      exact hproject
    · refine .inr ⟨_, s₂, hrun.trans hcommit, ⟨o, hok, ?_⟩⟩
      rw [hsame, ← hchanges]
      exact hproject
  · refine .inr ⟨e, s₁, ?_, hleaves⟩
    unfold runStep
    rw [happly]

/-! ### A batch -/

/-- Migrations that are done one after the other. -/
inductive AllDone (c : Collaborators) (raw : Options) :
    Session → List Migration → List Outcome → Session → Prop
  | nil (s : Session) : AllDone c raw s [] [] s
  | cons {s s₁ s₂ : Session} {m : Migration} {ms : List Migration} {outcome : Outcome}
      {outcomes : List Outcome} (step : StepDone c raw s (.migration m) outcome s₁)
      (rest : AllDone c raw s₁ ms outcomes s₂) : AllDone c raw s (m :: ms) (outcome :: outcomes) s₂

theorem runSteps_cons_done {m : Migration} {s₁ : Session}
    (h : StepDone c raw s (.migration m) outcome s₁) (ms : List Migration) :
    s.runSteps c raw (m :: ms) =
      ((s₁.runSteps c raw ms).1, (s₁.runSteps c raw ms).2.map (outcome :: ·)) := by
  rw [runSteps, h.run]
  simp only
  rcases s₁.runSteps c raw ms with ⟨s₂, e | outcomes⟩
  · rfl
  · rfl

/-- **The steps of a list are all done, or those before one that fails are**, and then the
list ends as it does whatever stands behind that one. -/
theorem runSteps_cases (c : Collaborators) (raw : Options) (s : Session) (ms : List Migration) :
    (∃ outcomes s', s.runSteps c raw ms = (s', .ok outcomes) ∧ AllDone c raw s ms outcomes s') ∨
    ∃ before m after outcomes s₁ e s', ms = before ++ m :: after ∧
      AllDone c raw s before outcomes s₁ ∧ StepFailed c raw s₁ (.migration m) e s' ∧
        ∀ later, s.runSteps c raw (before ++ m :: later) = (s', .error e) := by
  induction ms generalizing s with
  | nil => exact .inl ⟨[], s, rfl, .nil s⟩
  | cons m ms ih =>
      rcases runStep_cases c raw s (.migration m) with ⟨outcome, s₁, D⟩ | ⟨e, s', F⟩
      · have hcons := runSteps_cons_done D
        rcases ih s₁ with ⟨outcomes, s', hrun, hdone⟩ |
          ⟨before, m', after, outcomes, s₂, e, s', rfl, hdone, F, hlater⟩
        · exact .inl ⟨outcome :: outcomes, s', by rw [hcons, hrun]; rfl, .cons D hdone⟩
        · refine .inr ⟨m :: before, m', after, outcome :: outcomes, s₂, e, s', rfl,
            .cons D hdone, F, fun later => ?_⟩
          rw [List.cons_append, hcons, hlater]
          rfl
      · refine .inr ⟨[], m, ms, [], s, e, s', rfl, .nil s, F, fun later => ?_⟩
        rw [List.nil_append, runSteps, F.run]

/-- **A batch that fails leaves exactly a prefix.**  Its steps are all done in the given order,
and then the version is recorded; or those before some step are done, that step fails, and
the run ends with it, whatever steps are listed behind it: none of them is asked anything or
changes a file.  What the failing step leaves is said by `StepFailed`, in terms of the
project as its codemod left it, which is the one that the step before left unless the
codemod carried something out itself.  An edit never does, and then the changes that are
carried out are changes of just that project.  This holds over any store, whatever it refuses
and whatever the collaborators answer. -/
theorem runMigrations_prefix (c : Collaborators) (s : Session) (ms : List Migration)
    (version : String) (settings : Settings) (raw : Options) :
    let started := s.note (.notice (announcement ms))
    let ran := s.runMigrations c ms version settings raw
    ((∃ outcomes s', AllDone c raw started ms outcomes s' ∧
        ran = s'.recordVersion c version settings outcomes) ∨
      ∃ before m after outcomes s₁ e s', ms = before ++ m :: after ∧
        AllDone c raw started before outcomes s₁ ∧ StepFailed c raw s₁ (.migration m) e s' ∧
        ran = ⟨s', settings, .error e⟩ ∧
        ∀ later, started.runSteps c raw (before ++ m :: later) = (s', .error e)) ∧
    ∀ m ∈ ms, (m.codemod.IsEdit → m.codemod.CarriesNothingOut) ∧
      (m.codemod.CarriesNothingOut → ∀ s₁ : Session,
        s₁.leaves (.migration m) raw = s₁.project ∧
          ∀ o changes p', (s₁.execute (.migration m) raw).2 = .ok o →
            (s₁.leaves (.migration m) raw).Sees o.project changes p' →
              s₁.project.Undergoes changes p') := by
  intro started ran
  refine ⟨?_, fun m _ => ⟨Codemod.IsEdit.carriesNothingOut, fun hnothing s₁ =>
    ⟨leaves_of_carriesNothingOut (.migration m) hnothing s₁ raw, fun o changes p' hexecuted =>
      undergoes_of_carriesNothingOut (.migration m) hnothing hexecuted⟩⟩⟩
  rcases runSteps_cases c raw started ms with ⟨outcomes, s', hrun, hdone⟩ |
    ⟨before, m, after, outcomes, s₁, e, s', hms, hdone, F, hlater⟩
  · have hbatch : s.batch c ms raw = (s', .ok outcomes) := hrun
    refine .inl ⟨outcomes, s', hdone, ?_⟩
    show s.runMigrations c ms version settings raw = _
    rw [runMigrations_of_ok (by rw [hbatch]), hbatch]
  · have hbatch : s.batch c ms raw = (s', .error e) := by
      rw [← hlater after, ← hms]
      rfl
    refine .inr ⟨before, m, after, outcomes, s₁, e, s', hms, hdone, F, ?_, hlater⟩
    show s.runMigrations c ms version settings raw = _
    rw [runMigrations_of_error (by rw [hbatch]), hbatch]

/-- A codemod that carries a file out and then stops: the step fails in execution, and the
file is there although no step before it has left one. -/
theorem runMigrations_execution_keeps_file :
    let p : Project := .ofTexts []
    let early : Codemod := ⟨"early", none, fun o _ => do
      let o ← o.halting ((o.add "a" "x").mapError .refused)
      let o ← o.carriedOut
      .error ⟨.raised "boom" [], o.project⟩⟩
    let m : Migration := ⟨"001-early", "1.1.0", "Stops late", early⟩
    let ran := (start p).runMigrations .none [m] "1.2.0" (Settings.load p) []
    (∃ cause, ran.result = .error (.execution "001-early" cause)) ∧
      p.content? (p.resolve "a") = none ∧
        ran.session.project.content? (p.resolve "a") = some "x" := by
  intro p early m ran
  have hcontent : ran.session.project.content? (p.resolve "a") = some "x" := by decide +kernel
  have hbefore : p.content? (p.resolve "a") = none := by decide +kernel
  exact ⟨⟨_, rfl⟩, hbefore, hcontent⟩

end Session

end Upkeep
