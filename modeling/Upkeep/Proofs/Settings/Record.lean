/-
What recording the settings does to a project.

It is refused while the document that is there cannot be read, and where the store refuses
the write, and then the file is left as it was.  Otherwise it holds a text made from the
document of before, with the version and the recorded flags put in.
-/
import Upkeep.Proofs.Project
import Upkeep.Settings

namespace Upkeep.Settings

variable {s : Settings} {p p' : Project} {document : Entries String Json.Value}

/-- Recording the settings leaves their file as it is: it is refused, or the file holds
that very text already. -/
def RecordsNothing (s : Settings) (p : Project) : Prop :=
  (s.record p).2 ≠ none ∨
    ∃ document, oldDocument p = .ok document ∧
      p.held recordedPath = some (.text (s.newText document))

theorem record_unreadable {e : SettingsError} (hold : oldDocument p = .error e) :
    s.record p = (p, some e) := by
  unfold record
  rw [hold]

theorem record_readable (hold : oldDocument p = .ok document) :
    (s.record p).1 = (p.write recordedPath (s.newText document)).1 ∧
      ((s.record p).2 = none ↔ (p.write recordedPath (s.newText document)).2 = none) := by
  unfold record
  rw [hold]
  exact ⟨rfl, Option.map_eq_none_iff⟩

/-- A recording that succeeds is the write of a text made from the document of before. -/
theorem record_ok (h : s.record p = (p', none)) :
    ∃ document, oldDocument p = .ok document ∧
      p.write recordedPath (s.newText document) = (p', none) := by
  cases hold : oldDocument p with
  | error e =>
      rw [record_unreadable hold] at h
      simp at h
  | ok document =>
      obtain ⟨hproject, hdone⟩ := record_readable (s := s) hold
      rw [h] at hproject hdone
      exact ⟨document, rfl, Prod.ext hproject.symm (hdone.mp rfl)⟩

/-- So the file holds that text afterwards. -/
theorem record_done (h : (s.record p).2 = none) :
    ∃ document, oldDocument p = .ok document ∧
      (s.record p).1.held recordedPath = some (.text (s.newText document)) := by
  obtain ⟨document, hold, hwrite⟩ := record_ok (Prod.ext rfl h)
  refine ⟨document, hold, ?_⟩
  rw [(Project.held_write hwrite).2, if_pos rfl]

/-- A recording that succeeds leaves all other files alone. -/
theorem record_others (h : s.record p = (p', none)) :
    p'.base = p.base ∧ ∀ q, q ≠ recordedPath → p'.held q = p.held q := by
  obtain ⟨document, -, hwrite⟩ := record_ok h
  obtain ⟨hbase, hheld⟩ := Project.held_write hwrite
  exact ⟨hbase, fun q hq => by rw [hheld, if_neg (Ne.symm hq)]⟩

/-- A refused recording changes nothing in the project. -/
theorem record_refused (h : (s.record p).2 ≠ none) :
    (s.record p).1.base = p.base ∧ ∀ q, (s.record p).1.held q = p.held q := by
  rcases hold : oldDocument p with e | document
  · rw [record_unreadable hold]
    exact ⟨rfl, fun q => rfl⟩
  · obtain ⟨hproject, hdone⟩ := record_readable (s := s) hold
    rw [hproject]
    rcases hw : p.write recordedPath (s.newText document) with ⟨p', _ | error⟩
    · exact absurd (hdone.mpr (by rw [hw])) h
    · exact Project.held_write_refused hw

theorem record_held_iff (s : Settings) (p : Project) :
    (s.record p).1.held recordedPath = p.held recordedPath ↔ s.RecordsNothing p := by
  by_cases hdone : (s.record p).2 = none
  · obtain ⟨document, hold, hheld⟩ := record_done hdone
    rw [hheld]
    constructor
    · intro hsame
      exact .inr ⟨document, hold, hsame.symm⟩
    · rintro (hrefused | ⟨document', hold', hsame⟩)
      · exact absurd hdone hrefused
      · rw [hold] at hold'
        cases hold'
        exact hsame.symm
  · exact iff_of_true ((record_refused hdone).2 recordedPath) (.inl hdone)

end Upkeep.Settings
