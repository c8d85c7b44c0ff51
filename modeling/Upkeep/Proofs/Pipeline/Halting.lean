/-
Steps that come to nothing.

The options of a step may be refused, and its codemod may stop.  Either comes before anything is
carried out, and no later stage of a step fails with the same errors; so the error tells whether
a step got past its codemod.  An edit that stops has changed nothing, and then neither has the
step.
-/
import Upkeep.Proofs.Pipeline.Jobs

namespace Upkeep

/-- Where the codemod stops it leaves the project as it was. -/
def Codemod.StopsInPlace (c : Codemod) : Prop :=
  ∀ o options halt, c.run o options = .error halt → halt.project = o.project

theorem Codemod.stopsInPlace_ofEdit (name : String) (schema : Option Schema)
    (edit : Overlay → Options → Except Failure Overlay) :
    (ofEdit name schema edit).StopsInPlace := by
  intro o options halt h
  have hrun : o.halting (edit o options) = .error halt := h
  cases hedit : edit o options with
  | ok o' => simp [hedit, Overlay.halting, Except.mapError] at hrun
  | error cause =>
      rw [hedit] at hrun
      cases hrun
      rfl

/-- The options of the step are refused, or its codemod stops. -/
inductive Step.Stops (step : Step) (p : Project) (raw : Options) : Prop
  | refused {e : ValidationError} (hoptions : step.codemod.options step.name raw = .error e)
  | halted {options : Options} {halt : Halt}
      (hoptions : step.codemod.options step.name raw = .ok options)
      (hrun : step.codemod.run (.empty p) options = .error halt)

/-- The step did not get past its codemod. -/
def RunError.Early : RunError → Prop
  | .validation _ | .execution _ _ => True
  | .flush _ _ | .checkpoint _ _ | .settings _ => False

namespace Session

variable {s : Session} {step : Step} {raw : Options}

/-- A step that does not stop is executed. -/
theorem exists_execute_ok (h : ¬step.Stops s.project raw) :
    ∃ o, (s.execute step raw).2 = .ok o := by
  unfold execute
  cases hoptions : step.codemod.options step.name raw with
  | error e => exact absurd (.refused hoptions) h
  | ok options =>
      cases hrun : step.codemod.run (.empty s.project) options with
      | error halt => exact absurd (.halted hoptions hrun) h
      | ok o => exact ⟨o, by simp only [hrun]⟩

/-- A step that stops leaves the session as it was, if its codemod stops in place. -/
theorem execute_of_stops (hinplace : step.codemod.StopsInPlace)
    (h : step.Stops s.project raw) :
    ∃ e : RunError, e.Early ∧ s.execute step raw = (s, .error e) := by
  unfold execute
  cases h with
  | @refused e hoptions =>
      rw [hoptions]
      exact ⟨.validation e, trivial, rfl⟩
  | @halted options halt hoptions hrun =>
      rw [hoptions]
      simp only [hrun]
      rw [hinplace _ _ _ hrun]
      exact ⟨.execution step.name halt.cause, trivial, rfl⟩

end Session

namespace Attempt

variable {c : Collaborators} {a : Attempt}

/-- **A step that stops has done nothing**, if its codemod stops in place. -/
theorem finish_of_stops (hinplace : a.step.codemod.StopsInPlace)
    (h : a.step.Stops a.desk.session.project a.raw) :
    ∃ e : RunError, e.Early ∧ a.finish c = (a.desk, .error e) := by
  obtain ⟨e, hearly, hexecute⟩ := Session.execute_of_stops hinplace h
  have happlied : a.applied c = (a.desk.session, .error e) := by
    unfold applied Session.apply
    rw [hexecute]
  exact ⟨e, hearly, finish_of_error happlied⟩

/-- **No other step ends as one that stops.** -/
theorem not_early_of_finish (h : ¬a.step.Stops a.desk.session.project a.raw) {e : RunError}
    (he : (a.finish c).2 = .error e) : ¬e.Early := by
  obtain ⟨o, hok⟩ := Session.exists_execute_ok h
  rcases finish_cases c a with ⟨s', e', happlied, hfinish⟩ |
    ⟨s', outcome, d', -, ⟨cause, -, hfinish⟩ | ⟨-, -, ⟨outcome', hfinish, -⟩ | ⟨cause, hfinish⟩⟩⟩
  · rw [hfinish] at he
    cases he
    unfold applied Session.apply at happlied
    rw [Session.execute_eq hok] at happlied
    obtain ⟨⟨refused, rfl⟩, -⟩ := Session.carryOut_error happlied
    exact id
  · rw [hfinish] at he
    cases he
    exact id
  · rw [hfinish] at he
    cases he
  · rw [hfinish] at he
    cases he
    exact id

end Attempt

end Upkeep
