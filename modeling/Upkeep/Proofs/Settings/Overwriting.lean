/-
A settings file that is not understood.

A file with a text that is no object stops a recording before anything is written.  A file that
cannot be read is not told apart from a missing one: the recording goes on from an empty
document, and what the file held is lost unless the store refuses the write as well.
-/
import Upkeep.Proofs.Settings.Legible
import Upkeep.Proofs.Settings.Record

namespace Upkeep

open Json

/-- Nothing but blanks; bytes that are no text are something. -/
def Content.IsBlank : Content → Prop
  | .text s => Text.isBlankText s = true
  | .bytes _ => False

namespace Settings

variable {p : Project}

/-- The settings file is there and not blank, and it cannot be read or is no object. -/
structure NotUnderstood (p : Project) : Prop where
  held : ∃ content, p.held recordedPath = some content ∧ ¬content.IsBlank
  noObject : ∀ text, p.content? recordedPath = some text →
    ¬∃ members, read text = .ok (.object members)

/-- A text that is no object stops a recording. -/
theorem NotUnderstood.oldDocument_error (h : NotUnderstood p) {text : String}
    (hcontent : p.content? recordedPath = some text) : ∃ e, oldDocument p = .error e := by
  obtain ⟨content, hheld, hblank⟩ := h.held
  rw [Project.held_of_content? hcontent] at hheld
  cases hheld
  have hnonblank : ¬Text.isBlankText text = true := hblank
  unfold oldDocument
  rw [hcontent]
  simp only
  rw [if_neg hnonblank]
  cases hmembers : readMembers text with
  | error problem => exact ⟨_, rfl⟩
  | ok members => exact absurd ⟨members, read_of_readMembers hmembers⟩ (h.noObject text hcontent)

/-- A file that cannot be read counts as an empty document, as a missing one does. -/
theorem oldDocument_of_unreadable (h : p.content? recordedPath = none) :
    oldDocument p = .ok [] := by
  unfold oldDocument
  rw [h]

/-- **A settings file that is not understood is spared exactly where it can be read or cannot be
written.**  Then the recording is refused, and all files are as they were.  Otherwise it
succeeds, and the file holds the settings alone. -/
theorem record_spares_iff (s : Settings) (p : Project) (h : NotUnderstood p) :
    (((s.record p).2 ≠ none ∧ ∀ q, (s.record p).1.held q = p.held q) ↔
        p.content? recordedPath ≠ none ∨ (p.write recordedPath (s.newText [])).2 ≠ none) ∧
      (p.content? recordedPath = none → (p.write recordedPath (s.newText [])).2 = none →
        (s.record p).2 = none ∧
          (s.record p).1.held recordedPath = some (.text (s.newText []))) := by
  cases hcontent : p.content? recordedPath with
  | some text =>
      obtain ⟨e, hold⟩ := h.oldDocument_error hcontent
      rw [record_unreadable hold]
      exact ⟨iff_of_true ⟨by simp, fun q => rfl⟩ (.inl (by simp)), fun hnone => by cases hnone⟩
  | none =>
      have hold := oldDocument_of_unreadable hcontent
      have hdone : (s.record p).2 = none ↔ (p.write recordedPath (s.newText [])).2 = none :=
        (record_readable hold).2
      refine ⟨⟨fun hspared => .inr (mt hdone.mpr hspared.1), fun hrefused => ?_⟩,
        fun _ hwritten => ?_⟩
      · have hrecord : (s.record p).2 ≠ none :=
          mt hdone.mp (hrefused.resolve_left fun hne => hne rfl)
        exact ⟨hrecord, (record_refused hrecord).2⟩
      · have hrecord := hdone.mpr hwritten
        obtain ⟨document, hold', hheld⟩ := record_done hrecord
        obtain rfl : [] = document := Except.ok.inj (hold.symm.trans hold')
        exact ⟨hrecord, hheld⟩

/-- A file that is closed to reading but not to writing loses its other members. -/
theorem record_spares_iff_closed :
    let path := Path.components "/p/.config/.cprc.json"
    let text := "\x7b\"version\":\"1.0.0\",\"bundler\":\"webpack\"\x7d"
    let p : Project := ⟨"/p", .memory
      ⟨[(path, ⟨"/p/.config/.cprc.json", text⟩)], [(path, .read)]⟩⟩
    let s : Settings := { initial with version := some "1.2.0" }
    NotUnderstood p ∧ (s.record p).2 = none ∧ (s.record p).1.held recordedPath =
      some (.text "\x7b\n  \"version\": \"1.2.0\"\n\x7d\n") := by
  intro path text p s
  have hclosed : p.content? recordedPath = none := by decide +kernel
  have hheld : p.held recordedPath = some (.text text) := by decide +kernel
  have hunread : NotUnderstood p := by
    refine ⟨⟨_, hheld, by simp only [Content.IsBlank]; decide +kernel⟩, fun read hread => ?_⟩
    rw [hclosed] at hread
    cases hread
  obtain ⟨hrecord, hlost⟩ :=
    (record_spares_iff s p hunread).2 hclosed (by decide +kernel)
  refine ⟨hunread, hrecord, hlost.trans ?_⟩
  decide +kernel

end Settings

end Upkeep
