/-
The order of events.

Every event stands on the trace with the project as it was then, so what comes before what is
a matter of the trace alone: an event is before the first write of a step if its project is the
one that the codemod left, and after all of them if its project has undergone the changes.

For one step the stages give the events piece by piece, and a step that is done has gone
through all of them.  Jobs put the events of their steps one after the other, so the order in
a batch is that of `Job.events`: its announcement, its steps, and the checkpoint for the
version, which is asked for only once the version is recorded.
-/
import Upkeep.Proofs.Pipeline.Jobs
import Upkeep.Proofs.Settings.Reload

namespace Upkeep

/-- The files that the formatter is asked about are those of the records with a content, in
their order. -/
theorem Overlay.pendingFiles_paths (o : Overlay) :
    o.pendingFiles.map Prod.fst =
      (o.records.outline.filter fun change => change.2 ≠ .delete).map Prod.fst := by
  unfold pendingFiles ChangeSet.outline
  induction o.records with
  | nil => rfl
  | cons change changes ih =>
      obtain ⟨path, r⟩ := change
      cases r with
      | delete => exact ih
      | add content => exact congrArg (path :: ·) ih
      | update content => exact congrArg (path :: ·) ih

namespace Settings

variable {s : Settings} {p p' : Project}

/-- The file of the recorded settings is a printed object with these members. -/
def Records (p : Project) (members : Entries String Json.Value) : Prop :=
  p.held recordedPath = some (.text ((Json.Value.object members).pretty ++ "\n"))

/-- A recorded version stands in the file. -/
theorem records_version {version : String} (hversion : s.version = some version)
    (h : s.record p = (p', none)) :
    ∃ members, Records p' members ∧ members.get? "version" = some (.string version) := by
  obtain ⟨document, -, hwrite⟩ := record_ok h
  refine ⟨s.mergeInto document, ?_, get?_mergeInto_version hversion⟩
  unfold Records
  rw [(Project.held_write hwrite).2, if_pos rfl]
  rfl

/-- A recorded flag stands in the file. -/
theorem records_flag {flag : String} {enabled : Bool} (hdistinct : s.recorded.Distinct)
    (hflag : s.recorded.get? flag = some enabled) (h : s.record p = (p', none)) :
    ∃ members flags, Records p' members ∧ members.get? "features" = some (.object flags) ∧
      Entries.get? flags flag = some (.bool enabled) := by
  obtain ⟨document, -, hwrite⟩ := record_ok h
  have hne : s.recorded ≠ [] := by
    rintro hnil
    rw [hnil] at hflag
    cases hflag
  refine ⟨s.mergeInto document, (oldFlagMembers document).putAll s.flagMembers, ?_, ?_, ?_⟩
  · unfold Records
    rw [(Project.held_write hwrite).2, if_pos rfl]
    rfl
  · rw [get?_mergeInto_features, if_neg hne]
  · rw [Entries.get?_putAll (distinct_flagMembers hdistinct), get?_flagMembers hdistinct, hflag]
    rfl

end Settings

namespace Session

variable {c : Collaborators} {s s' : Session} {raw : Options} {step : Step} {o : Overlay}

theorem record_ok {settings : Settings} (h : s.record settings = (s', .ok ())) :
    settings.record s.project = (s'.project, none) := by
  unfold record at h
  rcases hr : settings.record s.project with ⟨project, _ | e⟩
  · rw [hr] at h
    cases h
    rfl
  · rw [hr] at h
    cases h

/-- Formatting changes no path, no place and no kind of a record. -/
theorem outline_formatAll (s : Session) (o : Overlay) :
    (s.formatAll c o).1.records.outline = o.records.outline := by
  refine formatAll_invariant (P := fun state => state.1.records.outline = o.records.outline) ?_ rfl
  rintro ⟨o', s'⟩ ⟨path, content⟩ houtline
  unfold formatFile
  simp only
  split
  next formatted _ =>
    split
    · exact houtline
    · exact (Overlay.outline_reword o' path formatted).trans houtline
  next => exact houtline
  next => exact houtline

end Session

namespace Attempt

variable {c : Collaborators} {a : Attempt} {s s' : Session} {d : Desk} {outcome : Outcome}

/-- The events of a step that is done, in their order.  Its codemod has left the overlay `o`,
its changes have led to the project `flushed`, and `left` is the project in the end. -/
structure InOrder (c : Collaborators) (a : Attempt) (outcome : Outcome) (o : Overlay)
    (flushed left : Project) : Prop where
  executed : (a.desk.session.execute a.step a.raw).2 = .ok o
  /-- A codemod that carries nothing out leaves the project as it was when the turn came. -/
  untouched : a.step.codemod.CarriesNothingOut → o.project = a.desk.session.project
  /-- The formatter is asked about the files that are added or replaced, in the order of the
  changes. -/
  asked : o.pendingFiles.map Prod.fst =
    (outcome.changes.outline.filter fun change => change.2 ≠ .delete).map Prod.fst
  carriedOut : ∃ there, o.project.applyAll outcome.changes = (there, none) ∧
    flushed = a.desk.session.project.atop there.store
  undergone : a.desk.session.project.Sees o.project outcome.changes flushed
  /-- The project ends as it was flushed, with the missing flag recorded. -/
  ends : match a.missingFlag? with
    | none => left = flushed
    | some flag => (a.desk.settings.setFeature flag true).record flushed = (left, none)
  /-- What was carried out stays, but for the file of the recorded settings, into which the flag
  is merged. -/
  kept : ∀ q, q ≠ Settings.recordedPath → left.held q = flushed.held q
  /-- A flag that was missing stands in the file of the recorded settings in the end. -/
  flag : ∀ flag, a.missingFlag? = some flag → a.desk.settings.recorded.Distinct →
    ∃ members flags, Settings.Records left members ∧
      members.get? "features" = some (.object flags) ∧
        Entries.get? flags flag = some (.bool true)
  /-- All calls of the formatter are made on the project as the codemod left it, each with a
  notice if it failed; the report and the installer's call on the flushed one; and the
  checkpoint, if there is something to keep, on the one that the step leaves. -/
  events : ∃ installing, (installing = [] ∨ ∃ n, installing = c.installing flushed n) ∧
    a.events c =
      c.asking (a.desk.session.leaves a.step a.raw) (a.desk.session.count Event.isFormat)
        o.pendingFiles ++
      [⟨.report a.step.name a.step.description outcome.changes, flushed⟩] ++ installing ++
      if outcome.changes ≠ [] ∨ a.missingFlag?.isSome then c.committing left a.step.commitMessage
      else []

/-- Installing is making the call or leaving it, and nothing else. -/
theorem install_tells (s : Session) (o : Overlay) :
    ∃ installing, (installing = [] ∨ ∃ n, installing = c.installing s.project n) ∧
      (s.install c o).1.trace = s.trace ++ installing := by
  rcases Option.eq_none_or_eq_some (s.due? o.records) with hnone | ⟨content, hcontent⟩
  · rw [Session.install_of_not_due hnone]
    exact ⟨[], .inl rfl, (List.append_nil _).symm⟩
  · rw [Session.install_of_due hcontent]
    exact ⟨_, .inr ⟨_, rfl⟩, rfl⟩

/-- A step that is done has switched its missing flag on, and then asked for its checkpoint. -/
theorem finish_done (h : a.finish c = (d, .ok outcome)) :
    ∃ s' outcome' d', a.applied c = (s', .ok outcome') ∧ outcome'.changes = outcome.changes ∧
      a.switchFlag s' = (d', .ok ()) ∧
        d = ⟨d'.session.tell (if outcome.changes ≠ [] ∨ a.missingFlag?.isSome then
          c.committing d'.session.project a.step.commitMessage else []), d'.settings⟩ := by
  rcases finish_cases c a with ⟨s', e, -, hfinish⟩ |
    ⟨s', outcome', d', happlied, ⟨cause, -, hfinish⟩ | ⟨hswitch, hdesk, hend⟩⟩
  · rw [hfinish] at h
    cases h
  · rw [hfinish] at h
    cases h
  · rw [h] at hdesk hend
    rcases hend with ⟨outcome'', hok, hchanges⟩ | ⟨cause, herror⟩
    · cases hok
      exact ⟨s', outcome', d', happlied, hchanges.symm, hswitch, by rw [hchanges]; exact hdesk⟩
    · cases herror

/-- Where the flag is switched on the project is the one before it, with the flag recorded. -/
theorem switchFlag_ok (h : a.switchFlag s = (d, .ok ())) :
    match a.missingFlag? with
    | none => d.session.project = s.project
    | some flag => (a.desk.settings.setFeature flag true).record s.project =
        (d.session.project, none) := by
  rcases switchFlag_cases a s with ⟨hflag, hd⟩ | ⟨flag, left, hflag, ⟨hrecord, hd⟩ | ⟨cause, -, hd⟩⟩
  · rw [hd] at h
    cases h
    rw [hflag]
  · rw [hd] at h
    cases h
    rw [hflag]
    exact hrecord
  · simp [hd] at h

/-- **The events of a step that is done come in order.** -/
theorem inOrder_of_ok (h : a.finish c = (d, .ok outcome)) :
    ∃ o flushed, a.InOrder c outcome o flushed d.session.project := by
  obtain ⟨s', outcome', d', happlied, hchanges, hswitch, rfl⟩ := finish_done h
  obtain ⟨o, there, hexecuted, hoverlay, hcarried, hs'⟩ := Session.apply_ok happlied
  rw [hchanges] at hoverlay hcarried hs'
  have htrace := trace_finish (c := c) a
  obtain ⟨installing, hinstalling, htold⟩ := install_tells (c := c)
    ((a.desk.session.atop o.project.store).reported c a.step o outcome.changes there.store)
    ⟨there, outcome.changes⟩
  have hflushed : s'.project = a.desk.session.project.atop there.store := by
    rw [hs', Session.install_project]
    rfl
  have hends := switchFlag_ok hswitch
  rw [hflushed] at hends
  refine ⟨o, a.desk.session.project.atop there.store, hexecuted, ?_, ?_, ⟨there, hcarried, rfl⟩,
    ⟨there, Project.applyAll_done hcarried, rfl⟩, hends, ?_, ?_, installing, hinstalling, ?_⟩
  · exact fun hnothing => Session.project_of_carriesNothingOut hnothing hexecuted
  · have houtline : outcome.changes.outline = o.records.outline := by
      rw [hoverlay]
      exact Session.outline_formatAll _ o
    rw [houtline, Overlay.pendingFiles_paths]
  · intro q hq
    cases hflag : a.missingFlag? with
    | none =>
        rw [hflag] at hends
        exact congrArg (Project.held · q) hends
    | some flag =>
        rw [hflag] at hends
        exact (Settings.record_others hends).2 q hq
  · intro flag hflag hdistinct
    rw [hflag] at hends
    exact Settings.records_flag (hdistinct.put flag true) (Entries.get?_put_self _ flag true) hends
  · have htold' : s'.trace = a.desk.session.trace ++
        (c.asking (a.desk.session.leaves a.step a.raw) (a.desk.session.count Event.isFormat)
            o.pendingFiles ++
          [⟨.report a.step.name a.step.description outcome.changes,
            a.desk.session.project.atop there.store⟩]) ++ installing := by
      rw [hs', Session.execute_ok hexecuted]
      exact htold
    rw [h, Session.tell, (switchFlag_session hswitch).1, htold', List.append_assoc,
      List.append_assoc] at htrace
    exact (List.append_cancel_left htrace).symm.trans (List.append_assoc ..).symm

/-- A step whose options are refused or whose codemod stops tells nothing. -/
theorem events_of_not_executed {e : RunError} (h : (a.finish c).2 = .error e)
    (he : (∃ refused, e = .validation refused) ∨ ∃ name cause, e = .execution name cause) :
    a.events c = [] := by
  have htrace := trace_finish (c := c) a
  rcases finish_cases c a with ⟨s', e', happlied, hfinish⟩ |
    ⟨s', outcome', d', -, ⟨cause, -, hfinish⟩ | ⟨-, -, ⟨outcome'', hok, -⟩ | ⟨cause, herror⟩⟩⟩
  · rw [hfinish] at h htrace
    cases h
    obtain ⟨-, ⟨o, refused, rfl, -⟩ | ⟨-, hsame⟩⟩ := Session.apply_error happlied
    · simp at he
    · exact List.append_cancel_left (htrace.symm.trans (hsame.trans (List.append_nil _).symm))
  · rw [hfinish] at h
    cases h
    simp at he
  · rw [h] at hok
    cases hok
  · rw [h] at herror
    cases herror
    simp at he

end Attempt

/-! ### Jobs -/

variable {c : Collaborators}

/-- The checkpoint for the version of a batch is asked for once the version stands in the file of
the recorded settings, on the project that the batch leaves. -/
theorem Job.closing_batch (d : Desk) (ms : List Migration) (version : String) (raw : Options) :
    let job : Job := .batch ms version raw
    let left := (job.perform c d).1.session.project
    (∃ outcomes, (job.perform c d).2 = .ok outcomes) ∨ job.closing c d ≠ [] →
      job.closing c d = c.committing left (Session.versionMessage version) ∧
        ∃ members, Settings.Records left members ∧
          members.get? "version" = some (.string version) := by
  intro job left h
  rcases hbatch : d.session.batch c ms raw with ⟨s, e | outcomes⟩
  · obtain ⟨hperform, hclosing⟩ := perform_batch_of_error hbatch version
    rcases h with ⟨outcomes, hok⟩ | hne
    · rw [hperform] at hok
      cases hok
    · exact absurd hclosing hne
  · obtain ⟨hperform, hclosing⟩ := perform_batch_of_ok hbatch version
    have hsession := s.recordVersion_session (c := c) version d.settings outcomes
    have hleft : left = (s.record { d.settings with version := some version }).1.project := by
      show (Job.perform c d (.batch ms version raw)).1.session.project = _
      rw [hperform, hsession]
      rfl
    rcases hrecord : s.record { d.settings with version := some version } with ⟨s₁, e | done⟩
    · -- Where the version could not be recorded there is neither an outcome nor a checkpoint.
      have hnone : job.closing c d = [] := by
        rw [hclosing]
        unfold Session.versionTold
        rw [hrecord]
      have hresult : (job.perform c d).2 = .error e := by
        rw [hperform]
        unfold Session.recordVersion
        simp only
        rw [hrecord]
      rcases h with ⟨outcomes, hok⟩ | hne
      · rw [hresult] at hok
        cases hok
      · exact absurd hnone hne
    · rw [hrecord] at hleft
      refine ⟨?_, ?_⟩
      · rw [hclosing, hleft]
        unfold Session.versionTold
        rw [hrecord]
      · rw [hleft]
        exact Settings.records_version rfl (Session.record_ok hrecord)

/-- The events of a job, in their order. -/
structure Job.TellsInOrder (c : Collaborators) (d : Desk) (job : Job) : Prop where
  /-- Its announcement, if it has one, comes first, then come the steps one after the other. -/
  events : job.events c d =
    job.opening d ++ (job.attempts c d).flatMap (Attempt.events c) ++ job.closing c d
  done : ∀ a ∈ job.attempts c d, ∀ left outcome, a.finish c = (left, .ok outcome) →
    ∃ o flushed, a.InOrder c outcome o flushed left.session.project
  /-- Steps that are not even executed tell nothing. -/
  silent : ∀ a ∈ job.attempts c d, ∀ e, (a.finish c).2 = .error e →
    ((∃ refused, e = .validation refused) ∨ ∃ name cause, e = .execution name cause) →
      a.events c = []
  /-- The last event of a batch is the checkpoint for its version, once that is recorded. -/
  version : ∀ ms version raw, job = .batch ms version raw →
    let left := (job.perform c d).1.session.project
    (∃ outcomes, (job.perform c d).2 = .ok outcomes) ∨ job.closing c d ≠ [] →
      job.closing c d = c.committing left (Session.versionMessage version) ∧
        ∃ members, Settings.Records left members ∧
          members.get? "version" = some (.string version)

/-- **The events of jobs come in order.**  A runner tells the events of its jobs one after the
other.  In a job the announcement of a batch comes first, then its steps, each with all that
it tells before the next, and last the checkpoint for the version, on a project in whose
settings file the version stands.  A step that succeeds asks the formatter about each file
that it adds or replaces, in the order of its changes and on the project as its codemod left
it; it reports the changes that were carried out on the project that they led to; it calls
the installer at most once; and where there are changes, or a flag was switched on, it asks
for a checkpoint, on the project that has both.  A step whose options are refused or whose
codemod stops tells nothing.  This holds for any codemods, whatever the store refuses and
whatever the collaborators answer. -/
theorem Desk.events_in_order (c : Collaborators) (d : Desk) (jobs : List Job) :
    (d.after c jobs).session.trace =
      d.session.trace ++ ((d.visits c jobs).flatMap fun v => v.2.events c v.1) ∧
    ∀ v ∈ d.visits c jobs, v.2.TellsInOrder c v.1 := by
  refine ⟨trace_after d jobs, fun v _ => ⟨rfl, fun a _ left outcome h => Attempt.inOrder_of_ok h,
    fun a _ e h he => Attempt.events_of_not_executed h he, ?_⟩⟩
  rintro ms version raw hbatch
  rw [hbatch]
  exact Job.closing_batch v.1 ms version raw

/-- An addition with a flag, for two files of which the formatter fails on the first: the commit
comes last, and then the flag stands in the file. -/
theorem Desk.events_in_order_addition :
    let edit : Codemod := .ofEdit "edit" none fun o _ =>
      .ok (o.run [.add "package.json" "1", .add "a.ts" "x"])
    let a : Addition := ⟨"example", "Adds", edit, some "example"⟩
    let c : Collaborators :=
      ⟨fun n _ _ => if n = 0 then .error (.raised "no parser" []) else .ok none,
        fun _ _ => .ok (), some fun _ _ => .ok ()⟩
    let d : Desk := ⟨.start (.ofTexts []), .initial⟩
    let ran := d.after c [.addition a []]
    let label : Event → String
      | .format path _ => path.text
      | .notice _ => "notice"
      | .report .. => "report"
      | .install => "install"
      | .commit _ => "commit"
    ran.session.trace.map (fun m => label m.event) =
      ["package.json", "notice", "a.ts", "report", "notice", "install", "commit"] ∧
    ∃ members flags, Settings.Records ran.session.project members ∧
      members.get? "features" = some (.object flags) ∧
        Entries.get? flags "example" = some (.bool true) := by
  intro edit a c d ran label
  obtain ⟨-, hjobs⟩ := events_in_order c d [.addition a []]
  have hdone := (hjobs _ List.mem_cons_self).done ⟨d, .addition a, []⟩ List.mem_cons_self
  have hok : (Attempt.finish c ⟨d, .addition a, []⟩).2.isOk = true := by decide +kernel
  rcases hfinish : Attempt.finish c ⟨d, .addition a, []⟩ with ⟨left, e | outcome⟩
  · rw [hfinish] at hok
    cases hok
  · obtain ⟨o, flushed, O⟩ := hdone left outcome hfinish
    have hran : ran = left := congrArg Prod.fst hfinish
    rw [hran]
    refine ⟨?_, O.flag "example" rfl List.nodup_nil⟩
    rw [← hran]
    decide +kernel

end Upkeep
