/-
When packages are installed.

A runner remembers one text, the manifest for which packages were last installed.  What counts
for others is which manifest was carried out last when the installer was called, and that is on
the trace: the report before the call has the changes.  The two are tied by an invariant: what
is remembered is the manifest of the last call of the installer.  It holds because an
installation that is due is made right after the changes are reported, and because nothing else
touches what is remembered: neither a step that stops nor the installer's answer.

From there on the cache is out of the picture.  A step calls the installer if it writes a
manifest other than the one that the last call was made for, and so no two calls in a row are
made for the same.  Where the changes are carried out at the base of the session, that manifest
is the one that the project holds then.
-/
import Mathlib.Data.List.Chain
import Upkeep.Proofs.Pipeline.Jobs

namespace Upkeep

/-! ### What the installer is called for -/

/-- The manifest that was carried out last at each call of the installer, oldest first, if this
one was before. -/
def manifestsSeenFrom (written : Option String) : List Moment → List (Option Content)
  | [] => []
  | m :: events =>
    match m.event with
    | .report _ _ changes => manifestsSeenFrom (Session.manifestText? changes) events
    | .install => written.map .text :: manifestsSeenFrom written events
    | _ => manifestsSeenFrom written events

/-- The manifest that was carried out last at each call of the installer, oldest first. -/
def manifestsSeen : List Moment → List (Option Content) := manifestsSeenFrom none

/-- Among the events the installer is called for these manifests, whatever was carried out before
them. -/
def Calls (events : List Moment) (seen : List (Option Content)) : Prop :=
  ∀ written, manifestsSeenFrom written events = seen

namespace Calls

variable {xs ys : List Moment} {seen seen' : List (Option Content)}

theorem nil : Calls [] [] := fun _ => rfl

theorem manifestsSeen_eq (h : Calls xs seen) : manifestsSeen xs = seen := h none

/-- What is reported among the first events has no say in the calls among the later ones. -/
theorem manifestsSeenFrom_append (h : Calls ys seen) (written : Option String) :
    manifestsSeenFrom written (xs ++ ys) = manifestsSeenFrom written xs ++ seen := by
  induction xs generalizing written with
  | nil => exact h written
  | cons m xs ih =>
      simp only [List.cons_append, manifestsSeenFrom]
      split
      · exact ih _
      · rw [ih, List.cons_append]
      · exact ih _

theorem append (h : Calls xs seen) (h' : Calls ys seen') : Calls (xs ++ ys) (seen ++ seen') := by
  intro written
  rw [h'.manifestsSeenFrom_append, h written]

theorem manifestsSeen_append (h : Calls ys seen) (xs : List Moment) :
    manifestsSeen (xs ++ ys) = manifestsSeen xs ++ seen :=
  h.manifestsSeenFrom_append none

theorem flatMap {α : Type} {as : List α} {events : α → List Moment}
    {seen : α → List (Option Content)} (h : ∀ a ∈ as, Calls (events a) (seen a)) :
    Calls (as.flatMap events) (as.flatMap seen) := by
  induction as with
  | nil => exact nil
  | cons a as ih =>
      rw [List.flatMap_cons, List.flatMap_cons]
      exact (h a List.mem_cons_self).append (ih fun a ha => h a (List.mem_cons_of_mem _ ha))

end Calls

namespace Collaborators

variable (c : Collaborators) (p : Project)

theorem calls_asking (n : Nat) (files : List (ProjectPath × String)) :
    Calls (c.asking p n files) [] := by
  induction files generalizing n with
  | nil => exact .nil
  | cons file files ih =>
      have hone : Calls (c.askingOne p n file) [] := by
        intro written
        unfold askingOne
        rcases c.format n file.1 file.2 with e | answer <;> rfl
      exact hone.append (ih (n + 1))

theorem calls_report (title description : String) (changes : ChangeSet) :
    Calls [⟨.report title description changes, p⟩] [] := fun _ => rfl

/-- An installation behind a report is made for the manifest of its changes. -/
theorem calls_installing (title description : String) (changes : ChangeSet) (n : Nat) :
    Calls (⟨.report title description changes, p⟩ :: c.installing p n)
      [(Session.manifestText? changes).map .text] := by
  intro written
  unfold installing
  rcases c.install n p with e | done <;> rfl

theorem calls_committing (message : String) : Calls (c.committing p message) [] := by
  intro written
  unfold committing
  cases c.checkpoint <;> rfl

end Collaborators

namespace Session

variable {c : Collaborators} {s s' : Session} {step : Step} {raw : Options} {o : Overlay}
  {e : RunError} {outcome : Outcome}

/-- Formatting keeps that no path has two changes. -/
theorem changes_distinct (hdistinct : o.records.Distinct) :
    (s.changes c raw step o).Distinct := by
  obtain ⟨houtline, -⟩ := formatAll_records (c := c) (s.execute step raw).1 hdistinct
  unfold changes Entries.Distinct
  rw [keys_eq_of_outline houtline]
  exact hdistinct

/-- The manifest that a step writes at the base of the session is the one that the project holds
then. -/
theorem held_manifest (h : s.apply c step raw = (s', .ok outcome))
    (hexecute : (s.execute step raw).2 = .ok o) (hdistinct : o.records.Distinct)
    (hbase : o.project.base = s.project.base) {content : String}
    (hwritten : manifestText? outcome.changes = some content) :
    s'.project.held manifestPath = some (.text content) := by
  obtain ⟨o', flushed, hexecute', hchanges, hcarried, rfl⟩ := apply_ok h
  cases hexecute.symm.trans hexecute'
  have hdistinct : outcome.changes.Distinct := hchanges ▸ changes_distinct hdistinct
  obtain ⟨r, hr, hcontent⟩ := Option.bind_eq_some_iff.mp hwritten
  have U := Project.applyAll_done hcarried
  rw [install_project]
  show (s.project.atop flushed.store).held manifestPath = _
  rw [Project.atop_store (U.base.trans hbase), U.held, ChangeSet.effect_of_distinct hdistinct, hr]
  simp only [hcontent, Option.map_some]

/-- A step whose changes are carried out installs packages if that is due, and remembers for
which manifest. -/
theorem apply_ok_calls (h : s.apply c step raw = (s', .ok outcome)) :
    ∃ told, s'.trace = s.trace ++ told ∧
      ((s.due? outcome.changes = none ∧ s'.installed = s.installed ∧ Calls told []) ∨
        ∃ content, s.due? outcome.changes = some content ∧ s'.installed = some content ∧
          Calls told [some (.text content)]) := by
  obtain ⟨o, flushed, -, -, -, rfl⟩ := apply_ok h
  have hasked := c.calls_asking (s.project.atop o.project.store) (s.count Event.isFormat)
    o.pendingFiles
  rcases Option.eq_none_or_eq_some (s.due? outcome.changes) with hnone | ⟨content, hcontent⟩
  · rw [install_of_not_due hnone]
    have hreport := Collaborators.calls_report (s.project.atop flushed.store) step.name
      step.description outcome.changes
    exact ⟨_, rfl, .inl ⟨hnone, rfl, hasked.append hreport⟩⟩
  · rw [install_of_due hcontent]
    have hinstall := c.calls_installing (s.project.atop flushed.store) step.name step.description
      outcome.changes
      (((s.atop o.project.store).reported c step o outcome.changes flushed.store).count
        Event.isInstall)
    rw [(Option.filter_eq_some_iff.mp hcontent).1] at hinstall
    refine ⟨_, ?_, .inr ⟨content, hcontent, rfl, hasked.append hinstall⟩⟩
    show s.trace ++ (_ ++ [_]) ++ _ = s.trace ++ (_ ++ _ :: _)
    rw [List.append_assoc, List.append_assoc]
    rfl

/-- A step that stops calls no installer and remembers what was remembered. -/
theorem apply_error_calls (h : s.apply c step raw = (s', .error e)) :
    s'.installed = s.installed ∧ ∃ told, s'.trace = s.trace ++ told ∧ Calls told [] := by
  obtain ⟨hinstalled, ⟨o, refused, -, htrace⟩ | ⟨-, htrace⟩⟩ := apply_error h
  · exact ⟨hinstalled, _, htrace, Collaborators.calls_asking c _ _ _⟩
  · exact ⟨hinstalled, [], by rw [htrace, List.append_nil], .nil⟩

/-! ### What is remembered -/

/-- What is remembered is the manifest of the last call of the installer, and no two calls in a
row were made for the same. -/
structure InstalledOnChange (s : Session) : Prop where
  remembered : (manifestsSeen s.trace).getLast? = s.installed.map fun text => some (.text text)
  changed : (manifestsSeen s.trace).IsChain (· ≠ ·)

/-- An installation is due if the changes write a manifest other than the one of the last call of
the installer. -/
theorem InstalledOnChange.due?_eq (I : s.InstalledOnChange) (changes : ChangeSet) :
    s.due? changes = (manifestText? changes).filter fun content =>
      (manifestsSeen s.trace).getLast? ≠ some (some (.text content)) := by
  unfold due?
  refine congrArg (Option.filter · _) (funext fun content => ?_)
  rw [I.remembered]
  rcases s.installed with _ | text
  · simp
  · simp

/-- It is the business of the installer's calls alone. -/
theorem InstalledOnChange.congr (I : s.InstalledOnChange) (hinstalled : s'.installed = s.installed)
    (hseen : manifestsSeen s'.trace = manifestsSeen s.trace) : s'.InstalledOnChange :=
  ⟨by rw [hseen, hinstalled]; exact I.remembered, by rw [hseen]; exact I.changed⟩

theorem InstalledOnChange.tell (I : s.InstalledOnChange) (hinstalled : s'.installed = s.installed)
    {told : List Moment} (htrace : s'.trace = s.trace ++ told) (hcalls : Calls told []) :
    s'.InstalledOnChange :=
  I.congr hinstalled (by rw [htrace, hcalls.manifestsSeen_append, List.append_nil])

theorem InstalledOnChange.apply (I : s.InstalledOnChange) :
    (s.apply c step raw).1.InstalledOnChange := by
  rcases h : s.apply c step raw with ⟨s', e | outcome⟩
  · obtain ⟨hinstalled, told, htrace, hcalls⟩ := apply_error_calls h
    exact I.tell hinstalled htrace hcalls
  · obtain ⟨told, htrace, ⟨-, hinstalled, hcalls⟩ | ⟨content, hdue, hinstalled, hcalls⟩⟩ :=
      apply_ok_calls h
    · exact I.tell hinstalled htrace hcalls
    · have hseen := hcalls.manifestsSeen_append s.trace
      rw [I.due?_eq] at hdue
      have hother := of_decide_eq_true (Option.filter_eq_some_iff.mp hdue).2
      refine ⟨?_, ?_⟩
      · rw [htrace, hseen, hinstalled, List.getLast?_append, List.getLast?_singleton]
        rfl
      · rw [htrace, hseen]
        refine List.isChain_append.mpr ⟨I.changed, List.isChain_singleton _, ?_⟩
        intro last hlast new hnew
        cases hnew
        rintro rfl
        exact hother hlast

end Session

namespace Attempt

variable {c : Collaborators} {a : Attempt}

/-- The end of a step, behind the installation, calls no installer. -/
theorem finish_calls (a : Attempt) :
    (a.finish c).1.session.installed = (a.applied c).1.installed ∧
      ∃ told, (a.finish c).1.session.trace = (a.applied c).1.trace ++ told ∧ Calls told [] := by
  rcases finish_cases c a with ⟨s', e, happlied, hfinish⟩ |
    ⟨s', outcome, d', happlied, ⟨cause, hswitch, hfinish⟩ | ⟨hswitch, hdesk, -⟩⟩
  · rw [happlied, hfinish]
    exact ⟨rfl, [], (List.append_nil _).symm, .nil⟩
  · obtain ⟨htrace, hinstalled⟩ := switchFlag_session hswitch
    rw [happlied, hfinish]
    exact ⟨hinstalled, [], htrace.trans (List.append_nil _).symm, .nil⟩
  · obtain ⟨htrace, hinstalled⟩ := switchFlag_session hswitch
    rw [happlied, hdesk]
    refine ⟨hinstalled, _, congrArg (· ++ _) htrace, ?_⟩
    split
    · exact Collaborators.calls_committing c _ _
    · exact .nil

/-- The events of a step call the installer as it was called when its changes were carried
out. -/
theorem calls_events {told : List Moment} {seen : List (Option Content)}
    (htold : (a.applied c).1.trace = a.desk.session.trace ++ told) (hcalls : Calls told seen) :
    Calls (a.events c) seen := by
  obtain ⟨-, rest, hrest, hnone⟩ := finish_calls (c := c) a
  have htrace := trace_finish (c := c) a
  rw [hrest, htold, List.append_assoc] at htrace
  rw [← List.append_cancel_left htrace, ← List.append_nil seen]
  exact hcalls.append hnone

/-- Which manifests a step calls the installer for depends on nothing that was told before. -/
theorem calls_self (a : Attempt) : Calls (a.events c) (manifestsSeen (a.events c)) := by
  have hself : ∀ {seen}, Calls (a.events c) seen →
      Calls (a.events c) (manifestsSeen (a.events c)) := by
    intro seen h
    rwa [h.manifestsSeen_eq]
  rcases h : a.applied c with ⟨s', e | outcome⟩
  · obtain ⟨-, told, htold, hcalls⟩ := Session.apply_error_calls h
    exact hself (calls_events (by rw [h]; exact htold) hcalls)
  · obtain ⟨told, htold, ⟨-, -, hcalls⟩ | ⟨content, -, -, hcalls⟩⟩ := Session.apply_ok_calls h
    · exact hself (calls_events (by rw [h]; exact htold) hcalls)
    · exact hself (calls_events (by rw [h]; exact htold) hcalls)

/-- A step calls the installer exactly when that is needed.  If its changes are carried out,
they are to add or replace the manifest, with another content than at the last call of the
installer; the call is made for that one, and where the changes were made at the base of the
session, each path once, the project holds it.  If the step stops before, it calls no
installer. -/
structure InstallsWhenNeeded (c : Collaborators) (a : Attempt) : Prop where
  carriedOut : ∀ s' outcome, a.applied c = (s', .ok outcome) →
    let now := (Session.manifestText? outcome.changes).map Content.text
    manifestsSeen (a.events c) =
      if outcome.changes.writes Session.manifestPath ∧
          (manifestsSeen a.desk.session.trace).getLast? ≠ some now then [now] else []
  held : ∀ s' outcome o content, a.applied c = (s', .ok outcome) →
    (a.desk.session.execute a.step a.raw).2 = .ok o → o.records.Distinct →
      o.project.base = a.desk.session.project.base →
        Session.manifestText? outcome.changes = some content →
          s'.project.held Session.manifestPath = some (.text content)
  stopped : ∀ s' e, a.applied c = (s', .error e) → manifestsSeen (a.events c) = []

theorem installsWhenNeeded (I : a.desk.session.InstalledOnChange) : a.InstallsWhenNeeded c := by
  refine ⟨?_, fun s' outcome o content h hexecute hdistinct hbase hwritten =>
    Session.held_manifest h hexecute hdistinct hbase hwritten, ?_⟩
  · intro s' outcome h now
    obtain ⟨told, htold, hsees⟩ := Session.apply_ok_calls h
    rw [I.due?_eq] at hsees
    have hevents : ∀ {seen}, Calls told seen → manifestsSeen (a.events c) = seen := fun hcalls =>
      (calls_events (by rw [h]; exact htold) hcalls).manifestsSeen_eq
    rcases hwritten : Session.manifestText? outcome.changes with _ | content
    · have hwrites : outcome.changes.writes Session.manifestPath = false :=
        congrArg Option.isSome hwritten
      rw [hwritten] at hsees
      obtain ⟨-, -, hcalls⟩ | ⟨content, hdue, -⟩ := hsees
      · rw [if_neg (by simp [hwrites])]
        exact hevents hcalls
      · cases hdue
    · have hwrites : outcome.changes.writes Session.manifestPath = true :=
        congrArg Option.isSome hwritten
      have hnow : now = some (.text content) := congrArg (Option.map Content.text) hwritten
      rw [hwritten, Option.filter_some] at hsees
      rw [hnow, hwrites]
      by_cases hlast : (manifestsSeen a.desk.session.trace).getLast? = some (some (.text content))
      · rw [if_neg (by simp [hlast])] at hsees
        obtain ⟨-, -, hcalls⟩ | ⟨content, hdue, -⟩ := hsees
        · rw [if_neg (by simp [hlast])]
          exact hevents hcalls
        · cases hdue
      · rw [if_pos (by simp [hlast])] at hsees
        obtain ⟨hdue, -⟩ | ⟨content', hdue, -, hcalls⟩ := hsees
        · cases hdue
        · cases hdue
          rw [if_pos ⟨rfl, hlast⟩]
          exact hevents hcalls
  · intro s' e h
    obtain ⟨-, told, htold, hcalls⟩ := Session.apply_error_calls h
    exact (calls_events (by rw [h]; exact htold) hcalls).manifestsSeen_eq

end Attempt

variable {c : Collaborators}

/-- The end of a batch calls no installer. -/
theorem Session.calls_versionTold (s : Session) (version : String) (settings : Settings) :
    Calls (s.versionTold c version settings) [] := by
  unfold versionTold
  rcases s.record { settings with version := some version } with ⟨s₁, e | done⟩
  · exact .nil
  · exact Collaborators.calls_committing c _ _

/-- What the runner remembers stays the manifest of the last call of the installer. -/
theorem Desk.installedOnChange_invariant :
    Desk.Invariant c (fun _ => True) fun d => d.session.InstalledOnChange where
  announced d ms I := I.tell rfl rfl fun _ => rfl
  finish a _ I := by
    obtain ⟨hinstalled, told, htrace, hcalls⟩ := Attempt.finish_calls (c := c) a
    exact I.apply.tell hinstalled htrace hcalls
  recordVersion d version outcomes I := by
    have hsession := d.session.recordVersion_session (c := c) version d.settings outcomes
    rw [Session.record_fst] at hsession
    exact I.tell (by rw [hsession]; rfl) (Session.trace_recordVersion ..)
      (d.session.calls_versionTold version d.settings)
  adopt d settings I := I

theorem Job.calls_events (d : Desk) (job : Job) :
    Calls (job.events c d) ((job.attempts c d).flatMap fun a => manifestsSeen (a.events c)) := by
  have hopening : Calls (job.opening d) [] := by
    cases job <;> exact fun _ => rfl
  have hclosing : Calls (job.closing c d) [] := by
    unfold closing
    split
    · split
      · exact .nil
      · exact Session.calls_versionTold _ _ _
    · exact .nil
  have hattempts : Calls ((job.attempts c d).flatMap fun a => a.events c) _ :=
    Calls.flatMap fun a _ => a.calls_self
  have hevents := (hopening.append hattempts).append hclosing
  rwa [List.nil_append, List.append_nil] at hevents

/-- **Packages are installed exactly when that is needed.**  Take the steps that jobs in turn come
to, whatever the collaborators answer and their codemods do.  One whose changes are carried out
calls the installer if it writes the manifest, with another content than at the last call of
the installer, however that ended, or if there was none; the call is made for the manifest that
was carried out, which the project then holds.  A step that stops before that calls no
installer, and since only calls count it changes nothing for the later ones.  No other part of a
job calls the installer, and no two calls in a row are made for the same manifest. -/
theorem Desk.installs_when_needed (c : Collaborators) (p : Project) (settings : Settings)
    (jobs : List Job) :
    let d : Desk := ⟨.start p, settings⟩
    let seen := manifestsSeen (d.after c jobs).session.trace
    (∀ a ∈ d.attempts c jobs, a.InstallsWhenNeeded c) ∧
      seen = (d.attempts c jobs).flatMap (fun a => manifestsSeen (a.events c)) ∧
      seen.IsChain (· ≠ ·) := by
  intro d seen
  have hstart : d.session.InstalledOnChange := ⟨rfl, List.isChain_nil⟩
  obtain ⟨hafter, hattempts⟩ :=
    installedOnChange_invariant.visits (c := c) (fun job (_ : job ∈ jobs) _ _ => trivial) hstart
  refine ⟨fun a ha => a.installsWhenNeeded (hattempts a ha).2, ?_, hafter.changed⟩
  have hstarted : d.session.trace = [] := rfl
  have hcalls : Calls ((d.visits c jobs).flatMap fun v => v.2.events c v.1) _ :=
    Calls.flatMap fun v _ => v.2.calls_events v.1
  show manifestsSeen (d.after c jobs).session.trace = _
  rw [trace_after, hstarted, List.nil_append, hcalls.manifestsSeen_eq, attempts,
    List.flatMap_assoc]

/-- A manifest that is added, deleted, added again as it was, and replaced: of the two calls that
are made the first fails. -/
theorem Desk.installs_when_needed_readded :
    let edit : List Operation → Codemod := fun ops =>
      .ofEdit "edit" none fun o _ => .ok (o.run ops)
    let m : List Operation → Migration := fun ops => ⟨"001-edit", "1.1.0", "Edits", edit ops⟩
    let add : List Operation := [.add "package.json" "x"]
    let jobs : List Job := [.batch [m add, m [.delete "package.json"]] "1.1.0" [],
      .addition ⟨"example", "Adds", edit add, none⟩ [],
      .migration (m [.update "package.json" "y"]) []]
    let c : Collaborators := { Collaborators.none with
      install := fun n _ => if n = 0 then .error (.raised "offline" []) else .ok () }
    let seen := manifestsSeen
      ((⟨.start (.ofTexts []), .initial⟩ : Desk).after c jobs).session.trace
    seen = [some (.text "x"), some (.text "y")] ∧ seen.IsChain (· ≠ ·) := by
  intro edit m add jobs c seen
  obtain ⟨-, -, hchanged⟩ := installs_when_needed c (.ofTexts []) .initial jobs
  exact ⟨by decide +kernel, hchanged⟩

end Upkeep
