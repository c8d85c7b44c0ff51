/-
Jobs for one runner.

A runner is given job after job: one migration, a batch of them, one addition, in any order.
A `Desk` is the runner between two jobs, with the settings in memory that its caller passes.
What the jobs come to are steps.  An `Attempt` is one step at the desk as it is when its turn
comes, and the attempts of a job are its steps in their order, up to the first that fails.

The trace only grows, so an attempt has its own events, those that it adds.  A job has the
events of its attempts one after the other; a batch has its announcement in front of them and
the checkpoint for its version behind.
-/
import Upkeep.Proofs.Pipeline.Trace

namespace Upkeep

/-- A runner between two jobs, with the settings that are held in memory. -/
structure Desk where
  session : Session
  settings : Settings

/-- A job for a runner. -/
inductive Job where
  | migration (m : Migration) (raw : Options)
  | batch (ms : List Migration) (version : String) (raw : Options)
  | addition (a : Addition) (raw : Options)
  /-- The caller passes other settings from now on. -/
  | adopt (settings : Settings)

/-- A step whose turn has come. -/
structure Attempt where
  desk : Desk
  step : Step
  raw : Options

namespace Attempt

variable (c : Collaborators) (a : Attempt)

/-- The step up to the point where its changes are carried out and packages are installed. -/
def applied : Session × Except RunError Outcome := a.desk.session.apply c a.step a.raw

/-- The flag that the step still has to switch on; migrations have none. -/
def missingFlag? : Option String :=
  match a.step with
  | .migration _ => none
  | .addition x => Session.missingFlag? x a.desk.settings

/-- The step carried to its end. -/
def finish : Desk × Except RunError Outcome :=
  match a.step with
  | .migration m =>
    let (s, result) := a.desk.session.runMigration c m a.raw
    (⟨s, a.desk.settings⟩, result)
  | .addition x =>
    let ran := a.desk.session.runAddition c x a.desk.settings a.raw
    (⟨ran.session, ran.settings⟩, ran.result)

/-- The events of the step: what has happened since its turn came. -/
def events : List Moment :=
  (a.finish c).1.session.trace.drop a.desk.session.trace.length

/-- Switches the missing flag on, once the changes have been carried out. -/
def switchFlag (s : Session) : Desk × Except RunError Unit :=
  match a.missingFlag? with
  | none => (⟨s, a.desk.settings⟩, .ok ())
  | some flag =>
    let settings := a.desk.settings.setFeature flag true
    let (s, result) := s.record settings
    (⟨s, settings⟩, result)

end Attempt

namespace Desk

variable (c : Collaborators)

/-- The steps of a batch whose turn comes: each follows one that is done. -/
def steps (d : Desk) (raw : Options) : List Migration → List Attempt
  | [] => []
  | m :: ms =>
    let a : Attempt := ⟨d, .migration m, raw⟩
    a :: match a.finish c with
      | (d, .ok _) => steps d raw ms
      | (_, .error _) => []

end Desk

/-- The checkpoint at the end of a batch: it is asked for once the version is recorded. -/
def Session.versionTold (c : Collaborators) (s : Session) (version : String)
    (settings : Settings) : List Moment :=
  match s.record { settings with version := some version } with
  | (_, .error _) => []
  | (s, .ok ()) => c.committing s.project (versionMessage version)

namespace Job

variable (c : Collaborators)

/-- What a job leaves, and the outcomes of its steps or why it stopped. -/
def perform (d : Desk) : Job → Desk × Except RunError (List Outcome)
  | migration m raw =>
    let (s, result) := d.session.runMigration c m raw
    (⟨s, d.settings⟩, result.map ([·]))
  | batch ms version raw =>
    let ran := d.session.runMigrations c ms version d.settings raw
    (⟨ran.session, ran.settings⟩, ran.result)
  | addition a raw =>
    let ran := d.session.runAddition c a d.settings raw
    (⟨ran.session, ran.settings⟩, ran.result.map ([·]))
  | adopt settings => (⟨d.session, settings⟩, .ok [])

/-- The steps that a job asks for. -/
def steps : Job → List Step
  | migration m _ => [.migration m]
  | batch ms _ _ => ms.map .migration
  | addition a _ => [.addition a]
  | adopt _ => []

/-- The desk at which the steps of a batch begin. -/
def announced (d : Desk) (ms : List Migration) : Desk :=
  ⟨d.session.note (.notice (Session.announcement ms)), d.settings⟩

/-- The steps that a job comes to. -/
def attempts (d : Desk) : Job → List Attempt
  | migration m raw => [⟨d, .migration m, raw⟩]
  | batch ms _ raw => (announced d ms).steps c raw ms
  | addition a raw => [⟨d, .addition a, raw⟩]
  | adopt _ => []

/-- The events of a job in front of its steps. -/
def opening (d : Desk) : Job → List Moment
  | batch ms _ _ => [⟨.notice (Session.announcement ms), d.session.project⟩]
  | _ => []

/-- The events of a job behind its steps: the checkpoint for the version of a batch, if all of
its steps were done. -/
def closing (d : Desk) : Job → List Moment
  | batch ms version raw =>
    match d.session.batch c ms raw with
    | (_, .error _) => []
    | (s, .ok _) => s.versionTold c version d.settings
  | _ => []

/-- The events of a job. -/
def events (d : Desk) (job : Job) : List Moment :=
  job.opening d ++ (job.attempts c d).flatMap (Attempt.events c) ++ job.closing c d

end Job

namespace Desk

variable (c : Collaborators)

/-- Jobs in turn, each at the desk that the one before left. -/
def visits : Desk → List Job → List (Desk × Job)
  | _, [] => []
  | d, job :: jobs => (d, job) :: visits (job.perform c d).1 jobs

/-- What jobs in turn leave and answer, one after the other. -/
def course : Desk → List Job → List (Desk × Except RunError (List Outcome))
  | _, [] => []
  | d, job :: jobs => job.perform c d :: course (job.perform c d).1 jobs

/-- The desk after jobs in turn. -/
def after (d : Desk) (jobs : List Job) : Desk :=
  jobs.foldl (fun d job => (job.perform c d).1) d

/-- The steps that jobs in turn come to. -/
def attempts (d : Desk) (jobs : List Job) : List Attempt :=
  (d.visits c jobs).flatMap fun v => v.2.attempts c v.1

end Desk

/-! ### A step and its end -/

namespace Attempt

variable {c : Collaborators} {a : Attempt} {s' : Session} {e : RunError} {outcome : Outcome}

/-- A step that is not carried out ends there, with the settings as they were. -/
theorem finish_of_error (h : a.applied c = (s', .error e)) :
    a.finish c = (⟨s', a.desk.settings⟩, .error e) := by
  obtain ⟨d, step, raw⟩ := a
  unfold applied at h
  cases step with
  | migration m =>
      simp only [finish, Session.runMigration, Session.runStep, h]
  | addition x =>
      simp only [finish, Session.runAddition, h]

/-- A step that is carried out switches its flag on, and asks for a checkpoint if there is
something to keep: a change or the flag. -/
theorem finish_of_ok (h : a.applied c = (s', .ok outcome)) :
    a.finish c =
      match a.switchFlag s' with
      | (d, .error e) => (d, .error e)
      | (d, .ok ()) =>
        if outcome.changes ≠ [] ∨ a.missingFlag?.isSome then
          let (s, result) := d.session.commitStep c a.step outcome
          (⟨s, d.settings⟩, result)
        else (d, .ok outcome) := by
  obtain ⟨d, step, raw⟩ := a
  unfold applied at h
  cases step with
  | migration m =>
      simp only [finish, switchFlag, missingFlag?, Session.runMigration, Session.runStep, h]
      by_cases hnone : outcome.changes = []
      · simp [hnone]
      · simp [hnone]
  | addition x =>
      simp only [finish, switchFlag, missingFlag?, Session.runAddition, h]
      rcases Option.eq_none_or_eq_some (Session.missingFlag? x d.settings) with
        hflag | ⟨flag, hflag⟩
      · by_cases hnone : outcome.changes = []
        · simp [hflag, hnone, Session.finishAddition]
        · simp [hflag, hnone, Session.finishAddition]
      · simp only [hflag]
        rcases s'.record (d.settings.setFeature flag true) with ⟨s₁, e | done⟩
        · rfl
        · simp [Session.finishAddition]

/-- No flag is missing and nothing is done, or the one that is missing is on afterwards and its
recording is accepted or refused. -/
theorem switchFlag_cases (a : Attempt) (s : Session) :
    (a.missingFlag? = none ∧ a.switchFlag s = (⟨s, a.desk.settings⟩, .ok ())) ∨
    ∃ flag left, a.missingFlag? = some flag ∧
      let settings := a.desk.settings.setFeature flag true
      (settings.record s.project = (left, none) ∧
          a.switchFlag s = (⟨{ s with project := left }, settings⟩, .ok ())) ∨
        ∃ cause, settings.record s.project = (left, some cause) ∧
          a.switchFlag s = (⟨{ s with project := left }, settings⟩, .error (.settings cause)) := by
  unfold switchFlag Session.record
  rcases hflag : a.missingFlag? with _ | flag
  · exact .inl ⟨rfl, rfl⟩
  · rcases hrecord : (a.desk.settings.setFeature flag true).record s.project with
      ⟨left, _ | cause⟩
    · exact .inr ⟨flag, left, rfl, .inl ⟨hrecord, by simp only [hrecord]⟩⟩
    · exact .inr ⟨flag, left, rfl, .inr ⟨cause, hrecord, by simp only [hrecord]⟩⟩

/-- Switching the flag on is no event. -/
theorem switchFlag_session {s : Session} {d : Desk} {answer : Except RunError Unit}
    (h : a.switchFlag s = (d, answer)) :
    d.session.trace = s.trace ∧ d.session.installed = s.installed := by
  rcases switchFlag_cases a s with ⟨-, hd⟩ | ⟨flag, left, -, ⟨-, hd⟩ | ⟨cause, -, hd⟩⟩
  all_goals
    rw [hd] at h
    cases h
    exact ⟨rfl, rfl⟩

/-- **A step ends in one of three ways.**  It is not carried out, and ends there; or it is, but its
flag could not be recorded; or its flag is on too, and it is asked for a checkpoint if there
is something to keep, which may still be refused. -/
theorem finish_cases (c : Collaborators) (a : Attempt) :
    (∃ s' e, a.applied c = (s', .error e) ∧ a.finish c = (⟨s', a.desk.settings⟩, .error e)) ∨
    ∃ s' outcome d', a.applied c = (s', .ok outcome) ∧
      ((∃ cause, a.switchFlag s' = (d', .error (.settings cause)) ∧
          a.finish c = (d', .error (.settings cause))) ∨
        a.switchFlag s' = (d', .ok ()) ∧
        (a.finish c).1 = ⟨d'.session.tell (if outcome.changes ≠ [] ∨ a.missingFlag?.isSome then
          c.committing d'.session.project a.step.commitMessage else []), d'.settings⟩ ∧
        ((∃ outcome', (a.finish c).2 = .ok outcome' ∧ outcome'.changes = outcome.changes) ∨
          ∃ cause, (a.finish c).2 = .error (.checkpoint a.step.name cause))) := by
  rcases happlied : a.applied c with ⟨s', e | outcome⟩
  · exact .inl ⟨s', e, rfl, finish_of_error happlied⟩
  have hfinish := finish_of_ok happlied
  refine .inr ⟨s', outcome, ?_⟩
  rcases hswitch : a.switchFlag s' with ⟨d', e | done⟩
  · obtain ⟨cause, rfl⟩ : ∃ cause, e = .settings cause := by
      rcases switchFlag_cases a s' with ⟨-, hd⟩ | ⟨flag, left, -, ⟨-, hd⟩ | ⟨cause, -, hd⟩⟩
      · simp [hd] at hswitch
      · simp [hd] at hswitch
      · rw [hd] at hswitch
        cases hswitch
        exact ⟨cause, rfl⟩
    rw [hswitch] at hfinish
    exact ⟨d', rfl, .inl ⟨cause, rfl, hfinish⟩⟩
  rw [hswitch] at hfinish
  simp only at hfinish
  refine ⟨d', rfl, .inr ⟨rfl, ?_⟩⟩
  by_cases hkeep : outcome.changes ≠ [] ∨ a.missingFlag?.isSome
  · have hfst := Session.commitStep_fst (c := c) d'.session a.step outcome
    rw [if_pos hkeep] at hfinish
    rw [if_pos hkeep, hfinish]
    rcases Session.commitStep_cases (c := c) d'.session a.step outcome with
      ⟨s₁, committed, hcommit, -⟩ | ⟨s₁, cause, hcommit, -⟩
    · rw [hcommit] at hfst ⊢
      exact ⟨congrArg (Desk.mk · _) hfst, .inl ⟨_, rfl, rfl⟩⟩
    · rw [hcommit] at hfst ⊢
      exact ⟨congrArg (Desk.mk · _) hfst, .inr ⟨cause, rfl⟩⟩
  · rw [if_neg hkeep] at hfinish
    rw [if_neg hkeep, hfinish, Session.tell_nil]
    exact ⟨rfl, .inl ⟨outcome, rfl, rfl⟩⟩

/-! ### The trace only grows -/

theorem applied_extends (a : Attempt) : a.desk.session.trace <+: (a.applied c).1.trace := by
  rcases h : a.applied c with ⟨s', e | outcome⟩
  · obtain ⟨-, ⟨o, refused, -, htrace⟩ | ⟨-, htrace⟩⟩ := Session.apply_error h
    · exact ⟨_, htrace.symm⟩
    · exact ⟨[], by rw [htrace, List.append_nil]⟩
  · obtain ⟨o, flushed, -, -, -, rfl⟩ := Session.apply_ok h
    obtain ⟨later, hlater⟩ := Session.install_trace (c := c)
      ((a.desk.session.atop o.project.store).reported c a.step o outcome.changes flushed.store)
      ⟨flushed, outcome.changes⟩
    exact ⟨_, by rw [hlater]; exact (List.append_assoc ..).symm⟩

theorem finish_extends (a : Attempt) : a.desk.session.trace <+: (a.finish c).1.session.trace := by
  have hextends := applied_extends (c := c) a
  rcases finish_cases c a with ⟨s', e, happlied, hfinish⟩ |
    ⟨s', outcome, d', happlied, ⟨cause, hswitch, hfinish⟩ | ⟨hswitch, hdesk, -⟩⟩
  · rw [happlied] at hextends
    rwa [hfinish]
  · rw [happlied] at hextends
    rw [hfinish, (switchFlag_session hswitch).1]
    exact hextends
  · rw [happlied] at hextends
    rw [hdesk, Session.tell, (switchFlag_session hswitch).1]
    exact hextends.trans ⟨_, rfl⟩

/-- A step adds its events to the trace. -/
theorem trace_finish (a : Attempt) :
    (a.finish c).1.session.trace = a.desk.session.trace ++ a.events c :=
  (List.prefix_iff_eq_append.mp (finish_extends a)).symm

end Attempt

/-! ### Jobs in turn -/

variable {c : Collaborators}

/-- The steps of a batch add their events one after the other. -/
theorem Desk.trace_steps (d : Desk) (raw : Options) (ms : List Migration) :
    (d.session.runSteps c raw ms).1.trace =
      d.session.trace ++ (d.steps c raw ms).flatMap (Attempt.events c) := by
  induction ms generalizing d with
  | nil => exact (List.append_nil _).symm
  | cons m ms ih =>
      have hfirst := Attempt.trace_finish (c := c) ⟨d, .migration m, raw⟩
      unfold Session.runSteps steps
      rw [List.flatMap_cons, ← List.append_assoc, ← hfirst]
      simp only [Attempt.finish, Session.runMigration]
      rcases d.session.runStep c (.migration m) raw with ⟨s, e | outcome⟩
      · simp
      · have hrest := ih ⟨s, d.settings⟩
        simp only at hrest ⊢
        rw [← hrest]
        rcases s.runSteps c raw ms with ⟨s', e | outcomes⟩ <;> rfl

/-- The end of a batch records the version and asks for the checkpoint for it, where it comes to
that. -/
theorem Session.recordVersion_session (s : Session) (version : String) (settings : Settings)
    (outcomes : List Outcome) :
    (s.recordVersion c version settings outcomes).session =
      (s.record { settings with version := some version }).1.tell
        (s.versionTold c version settings) := by
  unfold recordVersion versionTold
  simp only
  rcases s.record { settings with version := some version } with ⟨s₁, e | done⟩
  · exact (tell_nil _).symm
  · have hcheckpoint :=
      checkpoint_fst (c := c) s₁ Settings.recordedPath.text (versionMessage version)
    simp only
    rcases hc : s₁.checkpoint c Settings.recordedPath.text (versionMessage version) with
      ⟨s₂, e | done⟩
    · rwa [hc] at hcheckpoint
    · rwa [hc] at hcheckpoint

theorem Session.trace_recordVersion (s : Session) (version : String) (settings : Settings)
    (outcomes : List Outcome) :
    (s.recordVersion c version settings outcomes).session.trace =
      s.trace ++ s.versionTold c version settings := by
  rw [recordVersion_session, record_fst]
  rfl

/-- A batch whose steps are not all done ends there. -/
theorem Job.perform_batch_of_error {d : Desk} {ms : List Migration} {raw : Options} {s : Session}
    {e : RunError} (h : d.session.batch c ms raw = (s, .error e)) (version : String) :
    (Job.batch ms version raw).perform c d = (⟨s, d.settings⟩, .error e) ∧
      (Job.batch ms version raw).closing c d = [] := by
  constructor
  · show (_, _) = _
    rw [Session.runMigrations_of_error (by rw [h]), h]
  · simp only [closing, h]

/-- A batch whose steps are all done goes on to record the version. -/
theorem Job.perform_batch_of_ok {d : Desk} {ms : List Migration} {raw : Options} {s : Session}
    {outcomes : List Outcome} (h : d.session.batch c ms raw = (s, .ok outcomes))
    (version : String) :
    let ran := s.recordVersion c version d.settings outcomes
    (Job.batch ms version raw).perform c d = (⟨ran.session, ran.settings⟩, ran.result) ∧
      (Job.batch ms version raw).closing c d = s.versionTold c version d.settings := by
  constructor
  · show (_, _) = _
    rw [Session.runMigrations_of_ok (by rw [h]), h]
  · simp only [closing, h]

/-- **A job adds its events to the trace.** -/
theorem Job.trace_perform (d : Desk) (job : Job) :
    (job.perform c d).1.session.trace = d.session.trace ++ job.events c d := by
  have hone : ∀ a : Attempt, (a.finish c).1.session.trace =
      a.desk.session.trace ++ ([] ++ [a].flatMap (Attempt.events c) ++ []) := by
    intro a
    rw [Attempt.trace_finish, List.nil_append, List.append_nil, List.flatMap_singleton]
  cases job with
  | migration m raw => exact hone ⟨d, .migration m, raw⟩
  | addition a raw => exact hone ⟨d, .addition a, raw⟩
  | adopt settings => exact (List.append_nil _).symm
  | batch ms version raw =>
      have hsteps : (d.session.batch c ms raw).1.trace =
          d.session.trace ++ (Job.batch ms version raw).opening d ++
            ((announced d ms).steps c raw ms).flatMap (Attempt.events c) :=
        (announced d ms).trace_steps raw ms
      rw [List.append_assoc] at hsteps
      unfold events
      rcases hbatch : d.session.batch c ms raw with ⟨s, e | outcomes⟩
      · obtain ⟨hperform, hclosing⟩ := perform_batch_of_error hbatch version
        rw [hbatch] at hsteps
        rw [hperform, hclosing, List.append_nil]
        exact hsteps
      · obtain ⟨hperform, hclosing⟩ := perform_batch_of_ok hbatch version
        rw [hbatch] at hsteps
        rw [hperform, hclosing, Session.trace_recordVersion, ← List.append_assoc]
        exact congrArg (· ++ _) hsteps

/-- **Jobs in turn add their events one after the other.** -/
theorem Desk.trace_after (d : Desk) (jobs : List Job) :
    (d.after c jobs).session.trace =
      d.session.trace ++ (d.visits c jobs).flatMap fun v => v.2.events c v.1 := by
  induction jobs generalizing d with
  | nil => exact (List.append_nil _).symm
  | cons job jobs ih =>
      show ((job.perform c d).1.after c jobs).session.trace = _
      rw [ih, Job.trace_perform, visits, List.flatMap_cons, List.append_assoc]

/-! ### What jobs keep -/

/-- A property of desks that everything keeps that jobs do with steps of a kind. -/
structure Desk.Invariant (c : Collaborators) (Admits : Step → Prop) (P : Desk → Prop) : Prop where
  announced : ∀ d ms, P d → P (Job.announced d ms)
  finish : ∀ a : Attempt, Admits a.step → P a.desk → P (a.finish c).1
  recordVersion : ∀ d version outcomes, P d →
    let ran := d.session.recordVersion c version d.settings outcomes
    P ⟨ran.session, ran.settings⟩
  adopt : ∀ d settings, P d → P ⟨d.session, settings⟩

namespace Desk.Invariant

variable {Admits : Step → Prop} {P : Desk → Prop}

/-- It holds at every step of a batch, and behind the last one. -/
theorem steps (I : Invariant c Admits P) {d : Desk} {ms : List Migration} (raw : Options)
    (hsteps : ∀ m ∈ ms, Admits (.migration m)) (h : P d) :
    P ⟨(d.session.runSteps c raw ms).1, d.settings⟩ ∧
      ∀ a ∈ d.steps c raw ms, Admits a.step ∧ P a.desk := by
  induction ms generalizing d with
  | nil => exact ⟨h, fun a ha => absurd ha List.not_mem_nil⟩
  | cons m ms ih =>
      have hm := hsteps m List.mem_cons_self
      have hfirst := I.finish ⟨d, .migration m, raw⟩ hm h
      have hrest : ∀ m ∈ ms, Admits (.migration m) := fun m' hm' =>
        hsteps m' (List.mem_cons_of_mem _ hm')
      unfold Session.runSteps Desk.steps
      simp only [Attempt.finish, Session.runMigration] at hfirst ⊢
      rcases hrun : d.session.runStep c (.migration m) raw with ⟨s, e | outcome⟩
      · rw [hrun] at hfirst
        refine ⟨hfirst, fun a ha => ?_⟩
        rw [List.mem_singleton.mp ha]
        exact ⟨hm, h⟩
      · rw [hrun] at hfirst
        obtain ⟨hlast, hall⟩ := ih (d := ⟨s, d.settings⟩) hrest hfirst
        simp only at hlast hall ⊢
        refine ⟨?_, fun a ha => ?_⟩
        · rcases hrun : s.runSteps c raw ms with ⟨s', e | outcomes⟩ <;> rwa [hrun] at hlast
        · rcases List.mem_cons.mp ha with rfl | ha
          · exact ⟨hm, h⟩
          · exact hall a ha

/-- It holds at every step of a job, and behind the job. -/
theorem job (I : Invariant c Admits P) {d : Desk} {job : Job}
    (hsteps : ∀ step ∈ job.steps, Admits step) (h : P d) :
    P (job.perform c d).1 ∧ ∀ a ∈ job.attempts c d, Admits a.step ∧ P a.desk := by
  have hone : ∀ a : Attempt, Admits a.step → P a.desk →
      P (a.finish c).1 ∧ ∀ a' ∈ [a], Admits a'.step ∧ P a'.desk := by
    intro a hadmits h
    refine ⟨I.finish a hadmits h, fun a' ha => ?_⟩
    rw [List.mem_singleton.mp ha]
    exact ⟨hadmits, h⟩
  cases job with
  | migration m raw => exact hone ⟨d, .migration m, raw⟩ (hsteps _ List.mem_cons_self) h
  | addition x raw => exact hone ⟨d, .addition x, raw⟩ (hsteps _ List.mem_cons_self) h
  | adopt settings => exact ⟨I.adopt d settings h, fun a ha => absurd ha List.not_mem_nil⟩
  | batch ms version raw =>
      have hadmits : ∀ m ∈ ms, Admits (.migration m) := fun m hm =>
        hsteps _ (List.mem_map_of_mem hm)
      obtain ⟨hrun, hall⟩ := I.steps raw hadmits (I.announced d ms h)
      have hlast : P ⟨(d.session.batch c ms raw).1, d.settings⟩ := hrun
      refine ⟨?_, hall⟩
      rcases hbatch : d.session.batch c ms raw with ⟨s, e | outcomes⟩
      · rw [hbatch] at hlast
        rw [(Job.perform_batch_of_error hbatch version).1]
        exact hlast
      · rw [hbatch] at hlast
        rw [(Job.perform_batch_of_ok hbatch version).1]
        exact I.recordVersion ⟨s, d.settings⟩ version outcomes hlast

/-- **It holds wherever jobs in turn come to, and at every step of theirs.** -/
theorem visits (I : Invariant c Admits P) {d : Desk} {jobs : List Job}
    (hsteps : ∀ job ∈ jobs, ∀ step ∈ job.steps, Admits step) (h : P d) :
    P (d.after c jobs) ∧ ∀ a ∈ d.attempts c jobs, Admits a.step ∧ P a.desk := by
  induction jobs generalizing d with
  | nil => exact ⟨h, fun a ha => absurd ha List.not_mem_nil⟩
  | cons job jobs ih =>
      obtain ⟨hjob, hattempts⟩ := I.job (hsteps job List.mem_cons_self) h
      obtain ⟨hafter, hlater⟩ := ih (fun job' hjob' => hsteps job' (List.mem_cons_of_mem _ hjob'))
        hjob
      refine ⟨hafter, fun a ha => ?_⟩
      rw [attempts, Desk.visits, List.flatMap_cons] at ha
      rcases List.mem_append.mp ha with ha | ha
      · exact hattempts a ha
      · exact hlater a ha

end Desk.Invariant

end Upkeep
