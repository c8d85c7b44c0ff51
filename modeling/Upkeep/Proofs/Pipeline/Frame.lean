/-
What a run leaves alone.

A codemod spares a path when a run on a fresh overlay neither changes what the project
holds there nor leaves anything pending for it, however the run ends.  The steps of a run
add nothing to that: formatting rewords files that are pending anyway, and only what is
pending is carried out.  So a file that every codemod spares comes through every step and
every batch, whatever the store refuses and the collaborators answer.
-/
import Upkeep.Pipeline.Run
import Upkeep.Proofs.Overlay.Operation
import Upkeep.Proofs.Overlay.PartialFlush

namespace Upkeep

/-- The second project is at the base of the first and holds the same at the path. -/
def Project.SameAt (q : ProjectPath) (p p' : Project) : Prop :=
  p'.base = p.base ∧ p'.held q = p.held q

namespace Project.SameAt

variable {q : ProjectPath} {p p' p'' : Project}

theorem refl (p : Project) : SameAt q p p := ⟨rfl, rfl⟩

theorem trans (h : SameAt q p p') (h' : SameAt q p' p'') : SameAt q p p'' :=
  ⟨h'.1.trans h.1, h'.2.trans h.2⟩

end Project.SameAt

namespace Project

/-- Whether carried out or refused, a change of another path leaves this one alone. -/
theorem apply_sameAt {q r : ProjectPath} (hne : r ≠ q) (p : Project) (change : Pending) :
    SameAt q p (p.apply r change).1 := by
  have hwrite : ∀ content, SameAt q p (p.write r content).1 := by
    intro content
    rcases hw : p.write r content with ⟨p', _ | error⟩
    · obtain ⟨hbase, hheld⟩ := held_write hw
      exact ⟨hbase, by rw [hheld, if_neg hne]⟩
    · obtain ⟨hbase, hheld⟩ := held_write_refused hw
      exact ⟨hbase, hheld q⟩
  cases change with
  | add content => exact hwrite content
  | update content => exact hwrite content
  | delete =>
      show SameAt q p (p.remove r).1
      rcases hr : p.remove r with ⟨p', _ | error⟩
      · obtain ⟨hbase, hheld⟩ := held_remove hr
        exact ⟨hbase, by rw [hheld, if_neg hne]⟩
      · rw [held_remove_refused hr]
        exact .refl p

/-- Carrying changes out leaves a path alone that none of them names, however far it
comes. -/
theorem applyAll_sameAt {q : ProjectPath} {changes : ChangeSet} (hq : q ∉ changes.keys)
    (p : Project) : SameAt q p (p.applyAll changes).1 := by
  refine applyAll_keeps (fun p' r change hmem hsame => ?_) (.refl p)
  have hne : r ≠ q := by
    rintro rfl
    exact hq (List.mem_map_of_mem hmem)
  exact hsame.trans (apply_sameAt hne p' change)

end Project

/-- A run on a fresh overlay, however it ends, leaves the path as the project has it. -/
def Codemod.Spares (c : Codemod) (q : ProjectPath) : Prop :=
  ∀ (p : Project) (options : Options),
    match c.run (.empty p) options with
    | .ok o => p.SameAt q o.project ∧ o.record? q = none
    | .error halt => p.SameAt q halt.project

namespace Session

variable {c : Collaborators} {q : ProjectPath}

/-! ### The stages of a step -/

theorem note_project (s : Session) (e : Event) : (s.note e).project = s.project := rfl

/-- A session that takes a store over at its own base has moved to that project. -/
theorem atop_eq {s : Session} {p : Project} (h : p.base = s.project.base) :
    s.atop p.store = { s with project := p } := by
  unfold atop
  rw [Project.atop_store h]

/-- Formatting keeps the project and adds no record. -/
theorem formatFile_keeps (state : Overlay × Session) (file : ProjectPath × String)
    (hq : state.1.record? q = none) :
    (formatFile c state file).1.record? q = none ∧
      (formatFile c state file).1.project = state.1.project ∧
      (formatFile c state file).2.project = state.2.project := by
  obtain ⟨o, s⟩ := state
  obtain ⟨path, content⟩ := file
  unfold formatFile
  simp only
  split
  next formatted _ =>
    have hreword : (o.reword path formatted).record? q = none := by
      rw [Overlay.record?_reword]
      split
      next hpath => rw [hpath, show o.record? q = none from hq]; rfl
      next => exact hq
    refine ⟨?_, ?_, rfl⟩
    · split
      · exact hq
      · exact hreword
    · split
      · rfl
      · exact Overlay.reword_project formatted
  next => exact ⟨hq, rfl, rfl⟩
  next => exact ⟨hq, rfl, rfl⟩

/-- What formatting one file keeps, formatting all of them keeps. -/
theorem formatAll_invariant {P : Overlay × Session → Prop}
    (hfile : ∀ state file, P state → P (formatFile c state file)) {s : Session} {o : Overlay}
    (h : P (o, s)) : P (s.formatAll c o) := by
  have hfold : ∀ (files : List (ProjectPath × String)) (state : Overlay × Session),
      P state → P (files.foldl (formatFile c) state) := by
    intro files
    induction files with
    | nil => exact fun state hstate => hstate
    | cons file files ih => exact fun state hstate => ih _ (hfile state file hstate)
  exact hfold o.pendingFiles (o, s) h

theorem formatAll_keeps (s : Session) (o : Overlay) (hq : o.record? q = none) :
    (s.formatAll c o).1.record? q = none ∧ (s.formatAll c o).1.project = o.project ∧
      (s.formatAll c o).2.project = s.project := by
  refine formatAll_invariant (P := fun state => state.1.record? q = none ∧
    state.1.project = o.project ∧ state.2.project = s.project) ?_ ⟨hq, rfl, rfl⟩
  rintro state file ⟨hrecord, hoverlay, hsession⟩
  obtain ⟨hrecord', hoverlay', hsession'⟩ := formatFile_keeps (c := c) state file hrecord
  exact ⟨hrecord', hoverlay'.trans hoverlay, hsession'.trans hsession⟩

theorem install_project (s : Session) (o : Overlay) : (s.install c o).1.project = s.project := by
  unfold install
  split
  · rfl
  · split
    · rfl
    · simp only
      split <;> rfl

theorem checkpoint_project (s : Session) (name message : String) :
    (s.checkpoint c name message).1.project = s.project := by
  unfold checkpoint
  split
  · rfl
  · simp only
    split <;> rfl

theorem commitStep_project (s : Session) (step : Step) (outcome : Outcome) :
    (s.commitStep c step outcome).1.project = s.project := by
  have hcheckpoint := checkpoint_project (c := c) s step.name step.commitMessage
  unfold commitStep
  split
  next heq => rwa [heq] at hcheckpoint
  next heq => rwa [heq] at hcheckpoint

/-- An overlay on the base of the session takes the session with it when it is carried out. -/
theorem flush_eq {s : Session} {o : Overlay} (h : o.project.base = s.project.base) :
    s.flush o = ({ s with project := o.flush.1 }, o.flush.2) := by
  have hbase : o.flush.1.base = s.project.base := (o.project.base_applyAll o.records).trans h
  unfold flush
  simp only
  rw [atop_eq hbase]

/-! ### A step -/

theorem execute_sameAt {step : Step} (h : step.codemod.Spares q) (s : Session) (raw : Options) :
    s.project.SameAt q (s.execute step raw).1.project ∧
      ∀ o, (s.execute step raw).2 = .ok o →
        o.record? q = none ∧ o.project = (s.execute step raw).1.project := by
  unfold execute
  split
  · exact ⟨.refl _, fun o ho => by simp at ho⟩
  next options _ =>
    have hrun := h s.project options
    split
    next heq =>
      rw [heq] at hrun
      rw [atop_eq hrun.1]
      exact ⟨hrun, fun o ho => by simp at ho⟩
    next heq =>
      rw [heq] at hrun
      rw [atop_eq hrun.1.1]
      refine ⟨hrun.1, fun o ho => ?_⟩
      cases ho
      exact ⟨hrun.2, rfl⟩

theorem carryOut_sameAt (s : Session) (step : Step) (o : Overlay) (hq : o.record? q = none)
    (hproject : o.project = s.project) :
    s.project.SameAt q (s.carryOut c step o).1.project := by
  obtain ⟨hrecord, hoverlay, hsession⟩ := formatAll_keeps (c := c) s o hq
  unfold carryOut
  rcases hformat : s.formatAll c o with ⟨o', s'⟩
  rw [hformat] at hrecord hoverlay hsession
  simp only at hrecord hoverlay hsession ⊢
  have hsame : o'.project = s'.project := hoverlay.trans (hproject.trans hsession.symm)
  have hflush : s.project.SameAt q o'.flush.1 := by
    rw [← hproject, ← hoverlay]
    exact Project.applyAll_sameAt (Entries.get?_eq_none_iff.mp hrecord) o'.project
  rw [flush_eq (congrArg Project.base hsame)]
  rcases hf : o'.flush with ⟨project, _ | e⟩
  · rw [hf] at hflush
    simp only
    rw [install_project, note_project]
    exact hflush
  · rwa [hf] at hflush

theorem apply_sameAt {step : Step} (h : step.codemod.Spares q) (s : Session) (raw : Options) :
    s.project.SameAt q (s.apply c step raw).1.project := by
  obtain ⟨hexecute, hok⟩ := execute_sameAt h s raw
  unfold apply
  rcases he : s.execute step raw with ⟨s', e | o⟩
  · rwa [he] at hexecute
  · rw [he] at hexecute hok
    obtain ⟨hrecord, hproject⟩ := hok o rfl
    exact hexecute.trans (carryOut_sameAt s' step o hrecord hproject)

/-- **A step leaves alone what its codemod spares.** -/
theorem runStep_sameAt {step : Step} (h : step.codemod.Spares q) (s : Session) (raw : Options) :
    s.project.SameAt q (s.runStep c step raw).1.project := by
  have happly := apply_sameAt (c := c) h s raw
  unfold runStep
  rcases ha : s.apply c step raw with ⟨s', e | outcome⟩
  · rwa [ha] at happly
  · rw [ha] at happly
    simp only
    split
    · exact happly
    · rw [commitStep_project]
      exact happly

/-- **A list of steps leaves alone what all of its codemods spare.** -/
theorem runSteps_sameAt {ms : List Migration} (h : ∀ m ∈ ms, m.codemod.Spares q) (s : Session)
    (raw : Options) : s.project.SameAt q (s.runSteps c raw ms).1.project := by
  induction ms generalizing s with
  | nil => exact .refl _
  | cons m ms ih =>
      have hstep : Step.codemod (.migration m) = m.codemod := rfl
      have hm := runStep_sameAt (c := c) (hstep ▸ h m (by simp)) s raw
      unfold runSteps
      rcases hs : s.runStep c (.migration m) raw with ⟨s', e | outcome⟩
      · rwa [hs] at hm
      · rw [hs] at hm
        have hms := hm.trans (ih (fun m' hm' => h m' (by simp [hm'])) s')
        simp only
        rcases hr : s'.runSteps c raw ms with ⟨s'', e | outcomes⟩ <;> rwa [hr] at hms

end Session

end Upkeep
