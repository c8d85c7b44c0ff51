/-
The feature flags of additions.

An addition whose codemod spares the settings files keeps what is said of the flags in force and
of those on record, and if it succeeds its own flag is in force.  So its flag is on record as well,
unless a recording of it was refused before, or the settings file is one that a loading drops.
-/
import Upkeep.Proofs.Overlay.InPlace
import Upkeep.Proofs.Pipeline.FlagTracking
import Upkeep.Proofs.Pipeline.Jobs

namespace Upkeep

/-! ### Codemods that spare the settings -/

/-- A run of the codemod leaves both settings files alone, and the memory that a project is kept
in stays one with the same denials. -/
structure Codemod.SparesSettings (codemod : Codemod) : Prop where
  recorded : codemod.Spares Settings.recordedPath
  user : codemod.Spares Settings.userPath
  memory : ∀ closed (p : Project) options, p.InMemory closed →
    match codemod.run (.empty p) options with
    | .ok o => o.project.InMemory closed
    | .error halt => halt.project.InMemory closed

namespace Codemod

variable {name : String} {schema : Option Schema}
  {edit : Overlay → Options → Except Failure Overlay}

/-- An edit by calls that do not name a path spares it. -/
theorem spares_ofEdit {q : ProjectPath}
    (h : ∀ o options o', edit o options = .ok o' →
      ∃ ops, o' = o.run ops ∧ ∀ op ∈ ops, q ∉ op.paths o.project.base) :
    (ofEdit name schema edit).Spares q := by
  intro p options
  show match (Overlay.empty p).halting (edit (.empty p) options) with
    | .ok o => p.SameAt q o.project ∧ o.record? q = none
    | .error halt => p.SameAt q halt.project
  rcases hedit : edit (.empty p) options with cause | o'
  · exact .refl p
  · obtain ⟨ops, rfl, hq⟩ := h _ _ _ hedit
    have hproject : ((Overlay.empty p).run ops).project = p := Overlay.run_project _ ops
    refine ⟨?_, Overlay.record?_run hq⟩
    rw [hproject]
    exact .refl p

/-- An edit by calls that name neither settings file spares the settings. -/
theorem sparesSettings_ofEdit
    (h : ∀ o options o', edit o options = .ok o' → ∃ ops, o' = o.run ops ∧
      ∀ op ∈ ops, Settings.recordedPath ∉ op.paths o.project.base ∧
        Settings.userPath ∉ op.paths o.project.base) :
    (ofEdit name schema edit).SparesSettings := by
  refine ⟨spares_ofEdit fun o options o' hedit => ?_, spares_ofEdit fun o options o' hedit => ?_,
    fun closed p options hmemory => ?_⟩
  · obtain ⟨ops, ho', hops⟩ := h o options o' hedit
    exact ⟨ops, ho', fun op hop => (hops op hop).1⟩
  · obtain ⟨ops, ho', hops⟩ := h o options o' hedit
    exact ⟨ops, ho', fun op hop => (hops op hop).2⟩
  · show match (Overlay.empty p).halting (edit (.empty p) options) with
      | .ok o => o.project.InMemory closed
      | .error halt => halt.project.InMemory closed
    rcases hedit : edit (.empty p) options with cause | o'
    · exact hmemory
    · obtain ⟨ops, rfl, -⟩ := h _ _ _ hedit
      have hproject : ((Overlay.empty p).run ops).project = p := Overlay.run_project _ ops
      show ((Overlay.empty p).run ops).project.InMemory closed
      rwa [hproject]

end Codemod

namespace Session

variable {c : Collaborators} {closed : List (List Component × Access)} {s : Session} {step : Step}

theorem execute_inMemory (hspares : step.codemod.SparesSettings) (h : s.project.InMemory closed)
    (raw : Options) : (s.execute step raw).1.project.InMemory closed := by
  unfold execute
  split
  · exact h
  next options _ =>
    have hrun := hspares.memory closed s.project options h
    split
    next heq =>
      rw [heq] at hrun
      exact hrun
    next heq =>
      rw [heq] at hrun
      exact hrun

theorem carryOut_inMemory (s : Session) (step : Step) {o : Overlay}
    (h : o.project.InMemory closed) : (s.carryOut c step o).1.project.InMemory closed := by
  obtain ⟨hoverlay, -⟩ := formatAll_projects (c := c) s o
  unfold carryOut
  rcases hformat : s.formatAll c o with ⟨o', s'⟩
  rw [hformat] at hoverlay
  simp only at hoverlay ⊢
  have hflush : o'.flush.1.InMemory closed := by
    unfold Overlay.flush
    rw [hoverlay]
    exact h.applyAll o'.records
  unfold flush
  rcases hf : o'.flush with ⟨project, _ | e⟩
  · rw [hf] at hflush
    simp only
    rw [install_project, note_project]
    exact hflush
  · rwa [hf] at hflush

/-- What a step does before its checkpoint spares the settings if its codemod does. -/
theorem apply_sameSettings (hspares : step.codemod.SparesSettings)
    (h : s.project.InMemory closed) (raw : Options) :
    s.project.SameSettings closed (s.apply c step raw).1.project := by
  refine ⟨h, ?_, apply_sameAt hspares.recorded s raw, apply_sameAt hspares.user s raw⟩
  have hexecute := execute_inMemory hspares h raw
  unfold apply
  rcases he : s.execute step raw with ⟨s', e | o⟩
  · rwa [he] at hexecute
  · have hs' := execute_eq (by rw [he])
    rw [he] at hexecute hs'
    obtain ⟨rfl, -⟩ := Prod.mk.inj hs'
    exact carryOut_inMemory _ step hexecute

end Session

/-! ### Additions in turn -/

/-- The flag that could not be recorded, as the answer to an addition tells. -/
def Addition.refusedFlag? {α : Type} (x : Addition) : Except RunError α → Option String
  | .error (.settings _) => x.featureFlag
  | _ => none

theorem Addition.refusedFlag?_map {α β : Type} (x : Addition) (f : α → β)
    (answer : Except RunError α) : x.refusedFlag? (answer.map f) = x.refusedFlag? answer := by
  rcases answer with e | a
  · cases e <;> rfl
  · rfl

namespace Desk

/-- The flags that could not be recorded while additions ran in turn. -/
def refusedFlags (c : Collaborators) : Desk → List (Addition × Options) → List String
  | _, [] => []
  | d, (x, raw) :: additions =>
    let (d', answer) := (Job.addition x raw).perform c d
    (x.refusedFlag? answer).toList ++ refusedFlags c d' additions

end Desk

namespace Attempt

variable {c : Collaborators} {closed : List (List Component × Access)} {refused : List String}
  {d d' : Desk} {x : Addition} {raw : Options} {s : Session} {flag : String}
  {I : List String → Settings → Project → Prop}

theorem missingFlag?_addition
    (h : (⟨d, .addition x, raw⟩ : Attempt).missingFlag? = some flag) :
    x.featureFlag = some flag ∧ d.settings.feature flag = false := by
  obtain ⟨hflag, hoff⟩ := Option.filter_eq_some_iff.mp h
  exact ⟨hflag, by simpa using hoff⟩

/-- The flag of an addition that was missing is on once it is switched on. -/
theorem feature_of_missingFlag? {other : String}
    (h : (⟨d, .addition x, raw⟩ : Attempt).missingFlag? = some flag)
    (hother : x.featureFlag = some other) :
    (d.settings.setFeature flag true).feature other = true := by
  obtain ⟨hflag, -⟩ := missingFlag?_addition h
  rw [hflag] at hother
  cases hother
  rw [Settings.feature_setFeature, if_pos rfl]

/-- An addition that is carried out switches its flag on, and its recording may be refused. -/
theorem switchFlag_keeps (K : Settings.FlagInvariant closed I) {answer : Except RunError Unit}
    (hI : I refused d.settings s.project)
    (h : (⟨d, .addition x, raw⟩ : Attempt).switchFlag s = (d', answer)) :
    I (refused ++ (x.refusedFlag? answer).toList) d'.settings d'.session.project ∧
      ∀ flag, x.featureFlag = some flag → d'.settings.feature flag = true := by
  rcases switchFlag_cases ⟨d, .addition x, raw⟩ s with
    ⟨hnone, hd⟩ | ⟨flag, left, hmissing, ⟨hrecord, hd⟩ | ⟨cause, hrecord, hd⟩⟩
  · rw [hd] at h
    cases h
    refine ⟨?_, fun flag hflag => ?_⟩
    · show I (refused ++ []) _ _
      rwa [List.append_nil]
    · have hkept := Option.filter_eq_none_iff.mp hnone flag hflag
      simpa using hkept
  · rw [hd] at h
    cases h
    refine ⟨?_, fun other => feature_of_missingFlag? hmissing⟩
    show I (refused ++ []) _ _
    rw [List.append_nil]
    exact K.switch_ok hI (missingFlag?_addition hmissing).2 hrecord
  · rw [hd] at h
    cases h
    obtain ⟨hflag, hoff⟩ := missingFlag?_addition hmissing
    refine ⟨?_, fun other => feature_of_missingFlag? hmissing⟩
    show I (refused ++ x.featureFlag.toList) _ _
    rw [hflag]
    exact K.switch_refused hI hoff hrecord

/-- **An addition keeps what is said of the flags**, however it ends. -/
theorem finish_keeps (K : Settings.FlagInvariant closed I) (hspares : x.codemod.SparesSettings)
    (hI : I refused d.settings d.session.project) (raw : Options) :
    let a : Attempt := ⟨d, .addition x, raw⟩
    let d' := (a.finish c).1
    I (refused ++ (x.refusedFlag? (a.finish c).2).toList) d'.settings d'.session.project ∧
      ∀ flag outcome, x.featureFlag = some flag → (a.finish c).2 = .ok outcome →
        d'.settings.feature flag = true := by
  intro a d'
  have S : d.session.project.SameSettings closed (a.applied c).1.project :=
    Session.apply_sameSettings (show a.step.codemod.SparesSettings from hspares) (K.memory hI) raw
  have Iapplied : I refused d.settings (a.applied c).1.project := K.move hI S
  rcases finish_cases c a with ⟨s', e, happlied, hfinish⟩ |
    ⟨s', outcome, left, happlied, ⟨cause, hswitch, hfinish⟩ | ⟨hswitch, hdesk, hend⟩⟩
  · rw [happlied] at Iapplied
    have hnone : x.refusedFlag? (a.finish c).2 = none := by
      rw [hfinish]
      obtain ⟨-, ⟨o, refused, rfl, -⟩ | ⟨⟨refused, rfl⟩ | ⟨cause, rfl⟩, -⟩⟩ :=
        Session.apply_error happlied
      all_goals rfl
    rw [hnone, show d' = _ from congrArg Prod.fst hfinish]
    refine ⟨by simpa using Iapplied, fun flag outcome _ hok => ?_⟩
    rw [hfinish] at hok
    cases hok
  · rw [happlied] at Iapplied
    rw [show d' = _ from congrArg Prod.fst hfinish, hfinish]
    exact ⟨(switchFlag_keeps K Iapplied hswitch).1, fun flag outcome _ hok => by cases hok⟩
  · rw [happlied] at Iapplied
    obtain ⟨I', hon⟩ := switchFlag_keeps K Iapplied hswitch
    have hnone : x.refusedFlag? (a.finish c).2 = none := by
      rcases hend with ⟨outcome', hok, -⟩ | ⟨cause, herror⟩
      · rw [hok]
        rfl
      · rw [herror]
        rfl
    rw [hnone, show d' = _ from hdesk]
    exact ⟨I', fun flag _ hflag _ => hon flag hflag⟩

end Attempt

namespace Desk

variable {c : Collaborators} {closed : List (List Component × Access)} {refused : List String}
  {I : List String → Settings → Project → Prop}

/-- The additions, as jobs. -/
def additions (xs : List (Addition × Options)) : List Job := xs.map fun x => .addition x.1 x.2

/-- Additions in turn keep what is said of the flags. -/
theorem after_keeps (K : Settings.FlagInvariant closed I) {d : Desk}
    {xs : List (Addition × Options)} (hspares : ∀ x ∈ xs, x.1.codemod.SparesSettings)
    (hI : I refused d.settings d.session.project) :
    let d' := d.after c (additions xs)
    I (refused ++ d.refusedFlags c xs) d'.settings d'.session.project := by
  intro d'
  induction xs generalizing d refused with
  | nil =>
      rw [refusedFlags, List.append_nil]
      exact hI
  | cons x xs ih =>
      obtain ⟨x, raw⟩ := x
      obtain ⟨I', -⟩ := Attempt.finish_keeps (c := c) K (hspares _ List.mem_cons_self) hI raw
      have hanswer : x.refusedFlag? ((Job.addition x raw).perform c d).2 =
          x.refusedFlag? (Attempt.finish c ⟨d, .addition x, raw⟩).2 := x.refusedFlag?_map _ _
      have I'' := ih (fun x hx => hspares x (List.mem_cons_of_mem _ hx)) I'
      rw [← hanswer, List.append_assoc] at I''
      exact I''

/-- After additions in turn one that succeeds leaves what is said of the flags, with its own flag
on in memory. -/
theorem kept_of_runAddition (K : Settings.FlagInvariant closed I) {start : Desk}
    {before : List (Addition × Options)} {x : Addition} {raw : Options} {flag : String}
    (hI : I [] start.settings start.session.project)
    (hbefore : ∀ x ∈ before, x.1.codemod.SparesSettings) (hspares : x.codemod.SparesSettings)
    (hflag : x.featureFlag = some flag) {s' : Session} {settings : Settings} {outcome : Outcome}
    (hran : (start.after c (additions before)).session.runAddition c x
      (start.after c (additions before)).settings raw = ⟨s', settings, .ok outcome⟩) :
    I (start.refusedFlags c before) settings s'.project ∧ settings.feature flag = true := by
  have hafter := after_keeps (c := c) K hbefore hI
  obtain ⟨I', hon⟩ := Attempt.finish_keeps (c := c) K hspares hafter raw
  have hfinish : Attempt.finish c ⟨start.after c (additions before), .addition x, raw⟩ =
      (⟨s', settings⟩, .ok outcome) := by
    unfold Attempt.finish
    simp only [hran]
  rw [hfinish] at I' hon
  refine ⟨?_, hon flag outcome hflag rfl⟩
  have hnone : x.refusedFlag? (Except.ok outcome : Except RunError Outcome) = none := rfl
  rwa [hnone, Option.toList_none, List.append_nil, List.nil_append] at I'

/-- **A successful addition has its flag on record exactly if no recording of it was refused
before and the settings file is not one that a loading drops.**  A project in memory may deny what
it likes, and its settings were loaded before any number of additions ran on it, of which some may
have failed; none of their codemods touches the settings files.  An addition with a flag that then
succeeds leaves a project in which a loading finds the flag on, unless the user turns it off, or
it is one of those whose recording was refused: it is on in memory since, and is not recorded
again.  If recordings are accepted although a loading drops the settings file, or cannot read it,
a flag that was recorded is found where the recorded flags make up for what the file lacks; and
one that was on by default is found unless they do and the file turns it off. -/
theorem addition_recorded_iff (c : Collaborators) (closed : List (List Component × Access))
    (s : Session) (before : List (Addition × Options)) (x : Addition) (raw : Options)
    (flag : String) (hmemory : s.project.InMemory closed)
    (hbefore : ∀ x ∈ before, x.1.codemod.SparesSettings) (hspares : x.codemod.SparesSettings)
    (hflag : x.featureFlag = some flag) :
    let start : Desk := ⟨s, Settings.load s.project⟩
    let d := start.after c (additions before)
    ∀ s' settings outcome,
      d.session.runAddition c x d.settings raw = ⟨s', settings, .ok outcome⟩ →
      Settings.UserAllows s'.project flag →
        ((Settings.load s'.project).feature flag = true ↔
          flag ∉ start.refusedFlags c before ∧
            (Settings.Overlooked s.project → settings.Restores s.project flag)) := by
  intro start d s' settings outcome hran hallows
  by_cases hover : Settings.Overlooked s.project
  · obtain ⟨old, D⟩ := hover.drops hmemory
    obtain ⟨F, hon⟩ := kept_of_runAddition (Settings.Follows.invariant D)
      (Settings.Follows.load D) hbefore hspares hflag hran
    have hnone : start.refusedFlags c before = [] := F.accepted
    rw [F.feature_load_iff D hallows hon, hnone]
    exact ⟨fun hrestores => ⟨List.not_mem_nil, fun _ => hrestores⟩, fun h => h.2 hover⟩
  · have hlegible : ¬Settings.Refuses s.project → Settings.Legible s.project := fun hopen =>
      by_contra fun h => hover ⟨hopen, h⟩
    obtain ⟨T, hon⟩ := kept_of_runAddition Settings.Tracks.invariant
      (Settings.Tracks.load hmemory hlegible) hbefore hspares hflag hran
    have hforce := (T.inForce flag hallows).mp hon
    constructor
    · intro hloaded
      refine ⟨fun hrefused => ?_, fun h => absurd h hover⟩
      rw [T.lost flag hrefused hallows] at hloaded
      cases hloaded
    · rintro ⟨hrecorded, -⟩
      exact hforce.resolve_right hrecorded

/-- Writing the settings is denied: the first run of an addition fails for that, and the second
succeeds although its flag is not on record. -/
theorem addition_recorded_iff_denied :
    let closed : List (List Component × Access) :=
      [(Path.components "/p/.config/.cprc.json", .write)]
    let s : Session := .start ⟨"/p", .memory ⟨[], closed⟩⟩
    let edit : Codemod := .ofEdit "example" none fun o _ => .ok (o.run [.add "a.txt" "x"])
    let x : Addition := ⟨"example", "Adds a file", edit, some "example"⟩
    let start : Desk := ⟨s, .load s.project⟩
    let d := start.after .none (additions [(x, [])])
    let again := d.session.runAddition .none x d.settings []
    start.refusedFlags .none [(x, [])] = ["example"] ∧ again.result.isOk = true ∧
      Settings.UserAllows again.session.project "example" ∧
        (Settings.load again.session.project).feature "example" = false := by
  intro closed s edit x start d again
  have hspares : x.codemod.SparesSettings := by
    refine Codemod.sparesSettings_ofEdit fun o options o' hedit => ?_
    refine ⟨[.add "a.txt" "x"], (Except.ok.inj hedit).symm, fun op hop => ?_⟩
    have hpath : ProjectPath.resolve o.project.base "a.txt" = ⟨["a.txt"], by decide⟩ :=
      ProjectPath.resolve_text o.project.base ⟨["a.txt"], by decide⟩
    rw [List.mem_singleton.mp hop, Operation.paths, hpath]
    decide
  have hallows : Settings.UserAllows again.session.project "example" := by
    unfold Settings.UserAllows
    decide +kernel
  have hrefused : start.refusedFlags .none [(x, [])] = ["example"] := by decide +kernel
  have hok : again.result.isOk = true := by decide +kernel
  have hiff := addition_recorded_iff .none closed s [(x, [])] x [] "example"
    ⟨_, rfl, rfl⟩ (fun y hy => by rw [List.mem_singleton.mp hy]; exact hspares) hspares rfl
  refine ⟨hrefused, hok, hallows, ?_⟩
  rcases hran : again with ⟨s', settings, e | outcome⟩
  · rw [hran] at hok
    cases hok
  · rw [hran] at hallows
    rw [Bool.eq_false_iff]
    intro hloaded
    have hrecorded : "example" ∉ start.refusedFlags .none [(x, [])] :=
      ((hiff s' settings outcome hran hallows).mp hloaded).1
    rw [hrefused] at hrecorded
    exact hrecorded (List.mem_singleton_self _)

end Desk

end Upkeep
