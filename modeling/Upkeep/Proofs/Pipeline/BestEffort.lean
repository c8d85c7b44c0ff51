/-
What the formatter and the installer have no say in.

Both are called on the way and their failures are told in notices, nothing more.  So two runs
are compared that differ in nothing but such failures: the installer answers as it likes, and
where one formatter fails the other leaves the file as it is.  Looked at without the notices
the two sessions stay equal, stage by stage: the counts that the collaborators are given
depend on no notice, the formatter's answers come to the same content, and the manifest that
is remembered is written down before the installer answers.

What is left of the difference is one flag in the outcome of each step, which nothing reads.
-/
import Upkeep.Proofs.Pipeline.Jobs

namespace Upkeep

/-- A message for the user. -/
def Event.isNotice : Event → Bool
  | notice _ => true
  | _ => false

/-- The events without the notices: calls of collaborators, and reports. -/
def besidesNotices (events : List Moment) : List Moment :=
  events.filter fun m => !m.event.isNotice

/-- The outcome of a step without the flag that tells whether packages were installed. -/
def Outcome.besidesInstalled (o : Outcome) : Outcome := { o with installed := false }

theorem besidesNotices_append (xs ys : List Moment) :
    besidesNotices (xs ++ ys) = besidesNotices xs ++ besidesNotices ys :=
  List.filter_append ..

/-- Two runs that look the same: they leave states that are the same when they are made quiet,
and their answers are the same but for what the view leaves out. -/
structure LooksLike {σ α β : Type} (quiet : σ → σ) (view : α → β)
    (ran ran' : σ × Except RunError α) : Prop where
  state : quiet ran'.1 = quiet ran.1
  answer : ran'.2.map view = ran.2.map view

namespace LooksLike

variable {σ α β : Type} {quiet : σ → σ} {view : α → β} {s s' : σ} {x y : α} {e : RunError}

theorem ok (h : quiet s' = quiet s) (hxy : view y = view x) :
    LooksLike quiet view (s, .ok x) (s', .ok y) := ⟨h, congrArg Except.ok hxy⟩

theorem error (h : quiet s' = quiet s) (e : RunError) :
    LooksLike quiet view (s, .error e) (s', .error e) := ⟨h, rfl⟩

theorem of_error {ran' : σ × Except RunError α} (h : LooksLike quiet view (s, .error e) ran') :
    ∃ s', ran' = (s', .error e) ∧ quiet s' = quiet s := by
  obtain ⟨s', e' | y⟩ := ran'
  · have hanswer : Except.error e' = (Except.error e : Except RunError β) := h.answer
    cases hanswer
    exact ⟨s', rfl, h.state⟩
  · have hanswer : Except.ok (view y) = (Except.error e : Except RunError β) := h.answer
    cases hanswer

theorem of_ok {ran' : σ × Except RunError α} (h : LooksLike quiet view (s, .ok x) ran') :
    ∃ s' y, ran' = (s', .ok y) ∧ quiet s' = quiet s ∧ view y = view x := by
  obtain ⟨s', e' | y⟩ := ran'
  · have hanswer : Except.error e' = (Except.ok (view x) : Except RunError β) := h.answer
    cases hanswer
  · have hanswer : Except.ok (view y) = (Except.ok (view x) : Except RunError β) := h.answer
    exact ⟨s', y, rfl, h.state, Except.ok.inj hanswer⟩

end LooksLike

namespace Collaborators

/-- The second collaborators differ from the first only in failures that are none of a run's
business: in what the installer answers, and in formatter calls of which one fails where the
other leaves the content as it is. -/
structure WorksLike (c c' : Collaborators) : Prop where
  wording : c'.wording = c.wording
  checkpoint : c'.checkpoint = c.checkpoint

variable {c c' : Collaborators} (p : Project)

theorem besidesNotices_asking (c : Collaborators) (n : Nat) (files : List (ProjectPath × String)) :
    besidesNotices (c.asking p n files) = files.map fun file => ⟨.format file.1 file.2, p⟩ := by
  induction files generalizing n with
  | nil => rfl
  | cons file files ih =>
      have hone : besidesNotices (c.askingOne p n file) = [⟨.format file.1 file.2, p⟩] := by
        unfold askingOne
        rcases c.format n file.1 file.2 with e | answer <;> rfl
      unfold asking
      rw [besidesNotices_append, hone, ih]
      rfl

theorem besidesNotices_installing (c : Collaborators) (n : Nat) :
    besidesNotices (c.installing p n) = [⟨.install, p⟩] := by
  unfold installing
  rcases c.install n p with e | done <;> rfl

end Collaborators

namespace Session

variable {c c' : Collaborators} {s s' : Session} {raw : Options}

/-- The session without the notices. -/
def quiet (s : Session) : Session := { s with trace := besidesNotices s.trace }

theorem quiet_tell (s : Session) (events : List Moment) :
    (s.tell events).quiet = s.quiet.tell (besidesNotices events) := by
  unfold quiet tell
  rw [besidesNotices_append]

theorem quiet_move_congr (h : s'.quiet = s.quiet) (project : Project) :
    { s' with project }.quiet = { s with project }.quiet :=
  congrArg (fun s : Session => { s with project }) h

theorem quiet_atop_congr (h : s'.quiet = s.quiet) (store : Store) :
    (s'.atop store).quiet = (s.atop store).quiet :=
  congrArg (fun s : Session => s.atop store) h

theorem quiet_note_congr (h : s'.quiet = s.quiet) (e : Event) :
    (s'.note e).quiet = (s.note e).quiet := by
  have hproject : s'.project = s.project := congrArg (·.project) h
  rw [note_eq, note_eq, quiet_tell, quiet_tell, h, hproject]

/-- Events that are no notices are counted without the notices. -/
theorem count_congr (h : s'.quiet = s.quiet) {kind : Event → Bool}
    (hkind : ∀ e, kind e = true → e.isNotice = false) : s'.count kind = s.count kind := by
  have hquiet : ∀ s : Session, s.count kind = s.quiet.count kind := by
    intro s
    unfold count quiet besidesNotices
    rw [List.countP_filter]
    refine List.countP_congr fun m _ => ?_
    simpa using hkind m.event
  rw [hquiet, h, ← hquiet]

/-! ### The stages of a step -/

/-- One file comes to the same content. -/
theorem formatFile_fst_eq (c : Collaborators) (o : Overlay) (s : Session) (path : ProjectPath)
    (content : String) :
    (formatFile c (o, s) (path, content)).1 =
      if c.wording (s.count Event.isFormat) path content = content then o
      else o.reword path (c.wording (s.count Event.isFormat) path content) := by
  unfold formatFile Collaborators.wording
  simp only
  rcases c.format (s.count Event.isFormat) path content with e | _ | formatted
  · exact (if_pos rfl).symm
  · exact (if_pos rfl).symm
  · rfl

theorem foldl_formatFile_congr (hc : c.WorksLike c') (files : List (ProjectPath × String))
    (o : Overlay) (hcount : s'.count Event.isFormat = s.count Event.isFormat) :
    (files.foldl (formatFile c') (o, s')).1 = (files.foldl (formatFile c) (o, s)).1 := by
  induction files generalizing o s s' with
  | nil => rfl
  | cons file files ih =>
      obtain ⟨path, content⟩ := file
      have hfst : (formatFile c' (o, s') (path, content)).1 =
          (formatFile c (o, s) (path, content)).1 := by
        rw [formatFile_fst_eq, formatFile_fst_eq, hc.wording, hcount]
      have hcount' : (formatFile c' (o, s') (path, content)).2.count Event.isFormat =
          (formatFile c (o, s) (path, content)).2.count Event.isFormat := by
        rw [count_formatFile, count_formatFile, hcount]
      rw [List.foldl_cons, List.foldl_cons]
      rcases h : formatFile c (o, s) (path, content) with ⟨o₁, s₁⟩
      rcases h' : formatFile c' (o, s') (path, content) with ⟨o₁', s₁'⟩
      rw [h, h'] at hfst hcount'
      simp only at hfst hcount'
      rw [hfst]
      exact ih o₁ hcount'

/-- The formatter leaves the same overlay and is asked the same. -/
theorem formatAll_congr (hc : c.WorksLike c') (h : s'.quiet = s.quiet) (o : Overlay) :
    (s'.formatAll c' o).1 = (s.formatAll c o).1 ∧
      (s'.formatAll c' o).2.quiet = (s.formatAll c o).2.quiet := by
  have hproject : s'.project = s.project := congrArg (·.project) h
  refine ⟨foldl_formatFile_congr hc _ o (count_congr h fun e he => ?_), ?_⟩
  · cases e <;> simp_all [Event.isFormat, Event.isNotice]
  · rw [formatAll_snd, formatAll_snd, quiet_tell, quiet_tell, h, hproject,
      Collaborators.besidesNotices_asking, Collaborators.besidesNotices_asking]

/-- Packages are installed in both runs or in neither, and the same manifest is remembered. -/
theorem install_congr (h : s'.quiet = s.quiet) (o : Overlay) :
    (s'.install c' o).1.quiet = (s.install c o).1.quiet := by
  have hproject : s'.project = s.project := congrArg (·.project) h
  have hinstalled : s'.installed = s.installed := congrArg (·.installed) h
  have hdue : s'.due? o.records = s.due? o.records := by
    unfold due?
    rw [hinstalled]
  rcases Option.eq_none_or_eq_some (s.due? o.records) with hnone | ⟨content, hcontent⟩
  · rw [install_of_not_due hnone, install_of_not_due (hdue.trans hnone)]
    exact h
  · have hremembered : { s' with installed := some content }.quiet =
        { s with installed := some content }.quiet :=
      congrArg (fun s : Session => { s with installed := some content }) h
    rw [install_of_due hcontent, install_of_due (hdue.trans hcontent), quiet_tell, quiet_tell,
      Collaborators.besidesNotices_installing, Collaborators.besidesNotices_installing,
      hremembered, hproject]

theorem execute_congr (h : s'.quiet = s.quiet) (step : Step) (raw : Options) :
    LooksLike quiet id (s.execute step raw) (s'.execute step raw) := by
  have hproject : s'.project = s.project := congrArg (·.project) h
  unfold execute
  rw [hproject]
  rcases step.codemod.options step.name raw with e | options
  · exact .error h _
  · simp only
    rcases step.codemod.run (.empty s.project) options with halt | o
    · exact .error (quiet_atop_congr h halt.project.store) _
    · exact .ok (quiet_atop_congr h o.project.store) rfl

theorem carryOut_congr (hc : c.WorksLike c') (h : s'.quiet = s.quiet) (step : Step)
    (o : Overlay) :
    LooksLike quiet Outcome.besidesInstalled (s.carryOut c step o) (s'.carryOut c' step o) := by
  obtain ⟨hoverlay, hsession⟩ := formatAll_congr hc h o
  unfold carryOut
  rcases hformat : s.formatAll c o with ⟨o₁, s₁⟩
  rcases hformat' : s'.formatAll c' o with ⟨o₁', s₁'⟩
  rw [hformat, hformat'] at hoverlay hsession
  simp only at hoverlay hsession
  subst hoverlay
  unfold flush
  simp only
  rcases o₁'.flush with ⟨project, _ | refused⟩
  · have hreported := quiet_note_congr (quiet_atop_congr hsession project.store)
      (.report step.name step.description o₁'.records)
    exact .ok (install_congr hreported o₁') rfl
  · exact .error (quiet_atop_congr hsession project.store) _

theorem apply_congr (hc : c.WorksLike c') (h : s'.quiet = s.quiet) (step : Step)
    (raw : Options) :
    LooksLike quiet Outcome.besidesInstalled (s.apply c step raw) (s'.apply c' step raw) := by
  have hexecute := execute_congr h step raw
  unfold apply
  rcases hrun : s.execute step raw with ⟨s₁, e | o⟩
  · rw [hrun] at hexecute
    obtain ⟨s₁', hrun', hsession⟩ := hexecute.of_error
    rw [hrun']
    exact .error hsession e
  · rw [hrun] at hexecute
    obtain ⟨s₁', o', hrun', hsession, rfl⟩ := hexecute.of_ok
    rw [hrun']
    exact carryOut_congr hc hsession step o'

theorem checkpoint_congr (hc : c.WorksLike c') (h : s'.quiet = s.quiet) (name message : String) :
    LooksLike quiet id (s.checkpoint c name message) (s'.checkpoint c' name message) := by
  have hcount : s'.count Event.isCommit = s.count Event.isCommit := by
    refine count_congr h fun e he => ?_
    cases e <;> simp_all [Event.isCommit, Event.isNotice]
  unfold checkpoint
  rw [hc.checkpoint]
  cases c.checkpoint with
  | none => exact .ok h rfl
  | some commit =>
      simp only
      rw [hcount]
      have hnote := quiet_note_congr h (.commit message)
      rcases commit (s.count Event.isCommit) message with e | done
      · exact .error hnote _
      · exact .ok hnote rfl

theorem commitStep_congr (hc : c.WorksLike c') (h : s'.quiet = s.quiet) (step : Step)
    {outcome outcome' : Outcome}
    (houtcome : outcome'.besidesInstalled = outcome.besidesInstalled) :
    LooksLike quiet Outcome.besidesInstalled (s.commitStep c step outcome)
      (s'.commitStep c' step outcome') := by
  have hcheckpoint := checkpoint_congr hc h step.name step.commitMessage
  unfold commitStep
  rcases hcommit : s.checkpoint c step.name step.commitMessage with ⟨s₁, e | committed⟩
  · rw [hcommit] at hcheckpoint
    obtain ⟨s₁', hcommit', hsession⟩ := hcheckpoint.of_error
    rw [hcommit']
    exact .error hsession e
  · rw [hcommit] at hcheckpoint
    obtain ⟨s₁', committed', hcommit', hsession, rfl⟩ := hcheckpoint.of_ok
    rw [hcommit']
    exact .ok hsession (congrArg (fun o : Outcome => { o with committed := committed' }) houtcome)

theorem record_congr (h : s'.quiet = s.quiet) (settings : Settings) :
    LooksLike quiet id (s.record settings) (s'.record settings) := by
  have hproject : s'.project = s.project := congrArg (·.project) h
  unfold record
  rw [hproject]
  rcases settings.record s.project with ⟨project, _ | e⟩
  · exact .ok (quiet_move_congr h project) rfl
  · exact .error (quiet_move_congr h project) _

end Session

/-! ### Jobs -/

/-- The desk without the notices. -/
def Desk.quiet (d : Desk) : Desk := ⟨d.session.quiet, d.settings⟩

variable {c c' : Collaborators} {d d' : Desk}

namespace Attempt

/-- The flag is switched on in both runs or in neither. -/
theorem switchFlag_congr {s s' : Session} (hs : s'.quiet = s.quiet)
    (hsettings : d'.settings = d.settings) (step : Step) (raw : Options) :
    LooksLike Desk.quiet id ((⟨d, step, raw⟩ : Attempt).switchFlag s)
      ((⟨d', step, raw⟩ : Attempt).switchFlag s') := by
  have hflag : (⟨d', step, raw⟩ : Attempt).missingFlag? =
      (⟨d, step, raw⟩ : Attempt).missingFlag? := by
    unfold missingFlag?
    rw [hsettings]
  unfold switchFlag
  rw [hflag, hsettings]
  cases (⟨d, step, raw⟩ : Attempt).missingFlag? with
  | none => exact .ok (congrArg (Desk.mk · d.settings) hs) rfl
  | some flag =>
      have hrecord := Session.record_congr hs (d.settings.setFeature flag true)
      exact ⟨congrArg (Desk.mk · (d.settings.setFeature flag true)) hrecord.state, hrecord.answer⟩

/-- A step ends in the same way. -/
theorem finish_congr (hc : c.WorksLike c') (h : d'.quiet = d.quiet) (step : Step)
    (raw : Options) :
    LooksLike Desk.quiet Outcome.besidesInstalled
      (finish c ⟨d, step, raw⟩) (finish c' ⟨d', step, raw⟩) := by
  have hsession : d'.session.quiet = d.session.quiet := congrArg (·.session) h
  have hsettings : d'.settings = d.settings := congrArg (·.settings) h
  have happlied : LooksLike Session.quiet Outcome.besidesInstalled
      (applied c ⟨d, step, raw⟩) (applied c' ⟨d', step, raw⟩) :=
    Session.apply_congr hc hsession step raw
  rcases hrun : applied c ⟨d, step, raw⟩ with ⟨s, e | outcome⟩
  · rw [hrun] at happlied
    obtain ⟨s', hrun', hs⟩ := happlied.of_error
    rw [finish_of_error hrun, finish_of_error hrun']
    exact .error (congrArg₂ Desk.mk hs hsettings) e
  · rw [hrun] at happlied
    obtain ⟨s', outcome', hrun', hs, houtcome⟩ := happlied.of_ok
    have hswitch := switchFlag_congr hs hsettings step raw
    have hkeep : (outcome'.changes ≠ [] ∨ (⟨d', step, raw⟩ : Attempt).missingFlag?.isSome) ↔
        (outcome.changes ≠ [] ∨ (⟨d, step, raw⟩ : Attempt).missingFlag?.isSome) := by
      rw [show outcome'.changes = outcome.changes from congrArg (·.changes) houtcome]
      unfold missingFlag?
      rw [hsettings]
    rw [finish_of_ok hrun, finish_of_ok hrun']
    rcases hflag : (⟨d, step, raw⟩ : Attempt).switchFlag s with ⟨d₁, e | done⟩
    · rw [hflag] at hswitch
      obtain ⟨d₁', hflag', hd⟩ := hswitch.of_error
      rw [hflag']
      exact .error hd e
    · rw [hflag] at hswitch
      obtain ⟨d₁', done', hflag', hd, -⟩ := hswitch.of_ok
      rw [hflag']
      simp only
      by_cases hkept : outcome.changes ≠ [] ∨ (⟨d, step, raw⟩ : Attempt).missingFlag?.isSome
      · rw [if_pos hkept, if_pos (hkeep.mpr hkept)]
        have hcommit := Session.commitStep_congr hc (congrArg (·.session) hd) step houtcome
        exact ⟨congrArg₂ Desk.mk hcommit.state (congrArg (·.settings) hd), hcommit.answer⟩
      · rw [if_neg hkept, if_neg (mt hkeep.mp hkept)]
        exact .ok hd houtcome

end Attempt

namespace Session

variable {s s' : Session}

theorem runSteps_congr (hc : c.WorksLike c') (h : s'.quiet = s.quiet) (raw : Options)
    (ms : List Migration) :
    LooksLike quiet (List.map Outcome.besidesInstalled) (s.runSteps c raw ms)
      (s'.runSteps c' raw ms) := by
  induction ms generalizing s s' with
  | nil => exact .ok h rfl
  | cons m ms ih =>
      -- A migration reads no settings, so any will do for the desk that it is run at.
      have hdesk : Desk.quiet ⟨s', .initial⟩ = Desk.quiet ⟨s, .initial⟩ :=
        congrArg (Desk.mk · .initial) h
      have hstep := Attempt.finish_congr hc hdesk (.migration m) raw
      have hstep : LooksLike quiet Outcome.besidesInstalled (s.runStep c (.migration m) raw)
          (s'.runStep c' (.migration m) raw) :=
        ⟨congrArg (·.session) hstep.state, hstep.answer⟩
      unfold runSteps
      rcases hrun : s.runStep c (.migration m) raw with ⟨s₁, e | outcome⟩
      · rw [hrun] at hstep
        obtain ⟨s₁', hrun', hs⟩ := hstep.of_error
        rw [hrun']
        exact .error hs e
      · rw [hrun] at hstep
        obtain ⟨s₁', outcome', hrun', hs, houtcome⟩ := hstep.of_ok
        rw [hrun']
        simp only
        have hrest := ih hs
        rcases hruns : s₁.runSteps c raw ms with ⟨s₂, e | outcomes⟩
        · rw [hruns] at hrest
          obtain ⟨s₂', hruns', hs⟩ := hrest.of_error
          rw [hruns']
          exact .error hs e
        · rw [hruns] at hrest
          obtain ⟨s₂', outcomes', hruns', hs, houtcomes⟩ := hrest.of_ok
          rw [hruns']
          exact .ok hs (congrArg₂ List.cons houtcome houtcomes)

theorem recordVersion_congr (hc : c.WorksLike c') (h : s'.quiet = s.quiet) (version : String)
    (settings : Settings) {outcomes outcomes' : List Outcome}
    (houtcomes : outcomes'.map Outcome.besidesInstalled = outcomes.map Outcome.besidesInstalled) :
    let ran := s.recordVersion c version settings outcomes
    let ran' := s'.recordVersion c' version settings outcomes'
    LooksLike Desk.quiet (List.map Outcome.besidesInstalled)
      (⟨ran.session, ran.settings⟩, ran.result) (⟨ran'.session, ran'.settings⟩, ran'.result) := by
  have hrecord := record_congr h { settings with version := some version }
  unfold recordVersion
  simp only
  rcases hr : s.record { settings with version := some version } with ⟨s₁, e | done⟩
  · rw [hr] at hrecord
    obtain ⟨s₁', hr', hs⟩ := hrecord.of_error
    rw [hr']
    exact .error (congrArg (Desk.mk · _) hs) e
  · rw [hr] at hrecord
    obtain ⟨s₁', done', hr', hs, -⟩ := hrecord.of_ok
    rw [hr']
    simp only
    have hcheckpoint :=
      checkpoint_congr hc hs Settings.recordedPath.text (versionMessage version)
    rcases hk : s₁.checkpoint c Settings.recordedPath.text (versionMessage version) with
      ⟨s₂, e | done⟩
    · rw [hk] at hcheckpoint
      obtain ⟨s₂', hk', hs⟩ := hcheckpoint.of_error
      rw [hk']
      exact .error (congrArg (Desk.mk · _) hs) e
    · rw [hk] at hcheckpoint
      obtain ⟨s₂', done', hk', hs, -⟩ := hcheckpoint.of_ok
      rw [hk']
      exact .ok (congrArg (Desk.mk · _) hs) houtcomes

end Session

namespace Job

theorem perform_congr (hc : c.WorksLike c') (h : d'.quiet = d.quiet) (job : Job) :
    LooksLike Desk.quiet (List.map Outcome.besidesInstalled) (job.perform c d)
      (job.perform c' d') := by
  have hsession : d'.session.quiet = d.session.quiet := congrArg (·.session) h
  have hsettings : d'.settings = d.settings := congrArg (·.settings) h
  have hone : ∀ step raw, LooksLike Desk.quiet (List.map Outcome.besidesInstalled)
      (let r := Attempt.finish c ⟨d, step, raw⟩; (r.1, r.2.map ([·])))
      (let r := Attempt.finish c' ⟨d', step, raw⟩; (r.1, r.2.map ([·]))) := by
    intro step raw
    have hfinish := Attempt.finish_congr hc h step raw
    rcases hrun : Attempt.finish c ⟨d, step, raw⟩ with ⟨d₁, e | outcome⟩
    · rw [hrun] at hfinish
      obtain ⟨d₁', hrun', hd⟩ := hfinish.of_error
      rw [hrun']
      exact .error hd e
    · rw [hrun] at hfinish
      obtain ⟨d₁', outcome', hrun', hd, houtcome⟩ := hfinish.of_ok
      rw [hrun']
      exact .ok hd (congrArg ([·]) houtcome)
  cases job with
  | migration m raw => exact hone (.migration m) raw
  | addition x raw => exact hone (.addition x) raw
  | adopt settings => exact .ok (congrArg (Desk.mk · settings) hsession) rfl
  | batch ms version raw =>
      have hsteps : LooksLike Session.quiet (List.map Outcome.besidesInstalled)
          (d.session.batch c ms raw) (d'.session.batch c' ms raw) :=
        Session.runSteps_congr hc
          (Session.quiet_note_congr hsession (.notice (Session.announcement ms))) raw ms
      rcases hbatch : d.session.batch c ms raw with ⟨s, e | outcomes⟩
      · rw [hbatch] at hsteps
        obtain ⟨s', hbatch', hs⟩ := hsteps.of_error
        rw [(perform_batch_of_error hbatch version).1, (perform_batch_of_error hbatch' version).1]
        exact .error (congrArg₂ Desk.mk hs hsettings) e
      · rw [hbatch] at hsteps
        obtain ⟨s', outcomes', hbatch', hs, houtcomes⟩ := hsteps.of_ok
        rw [(perform_batch_of_ok hbatch version).1, (perform_batch_of_ok hbatch' version).1,
          hsettings]
        exact Session.recordVersion_congr hc hs version d.settings houtcomes

end Job

/-- What is seen of a job when neither its notices are looked at nor whether packages could be
installed: the project, the settings, the manifest that is remembered, all other events with
the project as it was then, and the answer. -/
def Desk.shown (ran : Desk × Except RunError (List Outcome)) :
    Desk × Except RunError (List Outcome) :=
  (ran.1.quiet, ran.2.map (List.map Outcome.besidesInstalled))

/-- **Formatters and installers that fail change nothing that matters.**  Take the same jobs from
the same desk with two sets of collaborators, of which the installers answer as they like and
the formatters come to the same content: where one fails the other may succeed if it leaves
the content as it is.  Then every job leaves the same project and the same settings, gives
the same error or outcomes with the same changes and checkpoints, and has made the same calls
of the formatter, the installer and the checkpoint, at the same moments.  Only the notices
can differ, and the flags that tell whether packages were installed. -/
theorem Desk.best_effort (c c' : Collaborators) (hc : c.WorksLike c') (d : Desk)
    (jobs : List Job) : (d.course c' jobs).map shown = (d.course c jobs).map shown := by
  suffices h : ∀ d' : Desk, d'.quiet = d.quiet →
      (d'.course c' jobs).map shown = (d.course c jobs).map shown from h d rfl
  induction jobs generalizing d with
  | nil => exact fun d' _ => rfl
  | cons job jobs ih =>
      intro d' h
      have hjob := Job.perform_congr hc h job
      have hrest := ih (job.perform c d).1 (job.perform c' d').1 hjob.state
      exact congrArg₂ List.cons (congrArg₂ Prod.mk hjob.state hjob.answer) hrest

/-- A formatter without a parser and an installer without a network, and a pair that has both:
three failures are told, and nothing else differs. -/
theorem Desk.best_effort_offline :
    let m : List Operation → Migration := fun ops =>
      ⟨"001-edit", "1.1.0", "Edits", .ofEdit "edit" none fun o _ => .ok (o.run ops)⟩
    let jobs : List Job := [.migration (m [.add "package.json" "1"]) [],
      .migration (m [.delete "package.json", .add "src/a.ts" "x"]) []]
    let failing : Collaborators :=
      ⟨fun _ _ _ => .error (.raised "no parser" []), fun _ _ => .error (.raised "offline" []),
        some fun _ _ => .ok ()⟩
    let working : Collaborators :=
      ⟨fun _ _ _ => .ok none, fun _ _ => .ok (), some fun _ _ => .ok ()⟩
    let d : Desk := ⟨.start (.ofTexts []), .initial⟩
    let notices (c : Collaborators) : Nat :=
      (d.after c jobs).session.trace.countP fun moment => moment.event.isNotice
    (d.course working jobs).map shown = (d.course failing jobs).map shown ∧
      notices failing = 4 ∧ notices working = 1 := by
  intro m jobs failing working d notices
  exact ⟨best_effort failing working ⟨rfl, rfl⟩ d jobs, by decide +kernel, by decide +kernel⟩

end Upkeep
