/-
Running a migration again.

What a migration leaves pending is what a fresh overlay shows once it is carried out.  All
migrations settle, so on that overlay the second run has nothing to do: it reports an empty
list of changes, and neither carries anything out nor installs nor asks for a checkpoint.

Documents are written from the values that were read.  That a printed value reads back is
asked of its numbers alone, whose reader rounds; the rest of the syntax is proved to.
-/
import Upkeep.Pipeline.Run
import Upkeep.Proofs.Overlay.Flush
import Upkeep.Proofs.Pipeline.Prefix
import Upkeep.Proofs.Registry.EslintDeprecation
import Upkeep.Proofs.Registry.ManifestMigrations
import Upkeep.Registry

namespace Upkeep

/-- Once an overlay is carried out, a fresh one shows the files that it showed. -/
theorem Overlay.Reaches.shows {p p' : Project} {o : Overlay} (h : Reaches (.empty p) o)
    (hopen : p.IsOpen) (hflush : o.flush = (p', none)) : o.Shows (.empty p') := by
  obtain ⟨ops, rfl⟩ := h
  obtain ⟨q, hflush', -, hbase, hcontent, hhas, -⟩ := flush_run hopen ops
  rw [hflush'] at hflush
  cases hflush
  refine ⟨fun s => ?_, fun s hs => ?_⟩
  · unfold content?
    rw [resolve_run, resolve_empty hbase]
    exact hcontent (p.resolve s)
  · rw [resolve_run] at hs
    unfold has
    rw [resolve_run, resolve_empty hbase]
    exact hhas (p.resolve s) hs

/-! ### Runs of one migration -/

/-- The formatter has no other content for any file. -/
def Collaborators.FormatsNothing (c : Collaborators) : Prop :=
  ∀ n path content, c.format n path content = .ok .none

namespace Session

variable {c : Collaborators} {edit : Overlay → Except Failure Overlay} {name : String}
variable {m : Migration} {s s' : Session} {raw : Options} {o : Overlay} {outcome : Outcome}

theorem formatFile_of_formatsNothing (hc : c.FormatsNothing) (state : Overlay × Session)
    (file : ProjectPath × String) : (formatFile c state file).1 = state.1 := by
  unfold formatFile
  simp only
  rw [hc (state.2.count Event.isFormat) file.1 file.2]

theorem formatAll_of_formatsNothing (hc : c.FormatsNothing) (s : Session) (o : Overlay) :
    (s.formatAll c o).1 = o := by
  refine formatAll_invariant (P := fun state => state.1 = o) (fun state file h => ?_) rfl
  rw [formatFile_of_formatsNothing hc, h]

/-- Without a formatter, what is carried out is the overlay itself. -/
theorem carryOut_ok (hc : c.FormatsNothing) (hbase : o.project.base = s.project.base)
    {step : Step} (h : s.carryOut c step o = (s', .ok outcome)) :
    o.flush = (s'.project, none) := by
  have hoverlay := formatAll_of_formatsNothing hc s o
  obtain ⟨-, hsession⟩ := formatAll_projects (c := c) s o
  unfold carryOut at h
  rcases hformat : s.formatAll c o with ⟨o₁, s₁⟩
  rw [hformat] at h hoverlay hsession
  simp only at h hoverlay hsession
  subst hoverlay
  rw [flush_eq (by rw [hsession, hbase])] at h
  rcases hflush : o₁.flush with ⟨project, _ | e⟩
  · rw [hflush] at h
    simp only [Prod.mk.injEq] at h
    rw [← h.1, install_project, note_project]
  · rw [hflush] at h
    simp at h

/-- The edit of a migration without options runs on a fresh overlay. -/
theorem execute_edit (hm : m.codemod = .ofEdit name none fun o _ => edit o) (s : Session)
    (raw : Options) :
    s.execute (.migration m) raw = match edit (.empty s.project) with
      | .error cause => (s, .error (.execution m.key cause))
      | .ok o => (s.atop o.project.store, .ok o) := by
  unfold execute Step.codemod
  simp only [hm, Codemod.options, Codemod.ofEdit, Overlay.halting]
  cases edit (.empty s.project) with
  | error cause => rfl
  | ok o => rfl

/-- A run that succeeds carries out what its edit leaves pending, if that is at the base of the
session. -/
theorem runMigration_ok (hm : m.codemod = .ofEdit name none fun o _ => edit o)
    (hbase : ∀ o, edit (.empty s.project) = .ok o → o.project.base = s.project.base)
    (hc : c.FormatsNothing) (h : (s.runMigration c m raw).2 = .ok outcome) :
    ∃ o, edit (.empty s.project) = .ok o ∧
      o.flush = ((s.runMigration c m raw).1.project, none) := by
  unfold runMigration runStep apply at h ⊢
  rw [execute_edit hm] at h ⊢
  cases hedit : edit (.empty s.project) with
  | error cause =>
      rw [hedit] at h
      simp at h
  | ok o =>
      rw [hedit] at h
      simp only at h ⊢
      refine ⟨o, rfl, ?_⟩
      rcases hcarry : carryOut c (s.atop o.project.store) (.migration m) o with
        ⟨s₁, e | outcome₁⟩
      · rw [hcarry] at h
        simp at h
      · simp only
        rw [carryOut_ok (s := s.atop o.project.store) hc (hbase o hedit) hcarry]
        split
        · rfl
        · rw [commitStep_project]

/-- **A run whose edit does nothing is reported and does nothing else.** -/
theorem runMigration_of_idle (hm : m.codemod = .ofEdit name none fun o _ => edit o)
    (h : edit (.empty s.project) = .ok (.empty s.project)) :
    s.runMigration c m raw =
      (s.note (.report m.key m.description []), .ok ⟨m.key, [], false, false⟩) := by
  unfold runMigration runStep apply
  rw [execute_edit hm, h]
  rfl

end Session

/-! ### Registered migrations -/

namespace Registry

/-- The numbers in the documents that migrations write again read back. -/
structure NumbersReadBack (p : Project) : Prop where
  manifest : Manifest.NumbersReadBack (.empty p)
  config : EslintDeprecation.NumbersReadBack (.empty p)

instance (p : Project) : Decidable (NumbersReadBack p) :=
  decidable_of_iff
    (Manifest.NumbersReadBack (.empty p) ∧ EslintDeprecation.NumbersReadBack (.empty p))
    ⟨fun h => ⟨h.1, h.2⟩, fun h => ⟨h.manifest, h.config⟩⟩

/-- **All migrations are edits that settle.** -/
theorem migrations_settle {m : Migration} (hm : m ∈ migrations) :
    ∃ name edit, m.codemod = .ofEdit name none (fun o _ => edit o) ∧
      ∀ p o, NumbersReadBack p → edit (.empty p) = .ok o →
        Overlay.Settles edit (.empty p) o := by
  unfold migrations at hm
  simp only [List.mem_cons, List.not_mem_nil, or_false] at hm
  obtain rfl | rfl | rfl := hm
  · exact ⟨_, EslintDeprecation.run, rfl, fun p o hn h =>
      EslintDeprecation.run_settles hn.manifest hn.config h⟩
  · exact ⟨_, ReactUpgrade.run, rfl, fun p o hn h => ReactUpgrade.run_settles hn.manifest h⟩
  · exact ⟨_, TestingLibraryTypes.run, rfl, fun p o hn h =>
      TestingLibraryTypes.run_settles hn.manifest h⟩

/-- **Running a migration again does nothing.**  The first run is without a formatter and
succeeds; the second may have any collaborators and options, and starts from the project
that the first one left, whatever else has happened since.  It succeeds, and all that it
adds to its session is the report of no changes: no file is written or removed, nothing is
installed and no checkpoint is asked for. -/
theorem runMigration_again {m : Migration} (hm : m ∈ migrations) {s t : Session}
    (hopen : s.project.IsOpen) (hnumbers : NumbersReadBack s.project)
    {c d : Collaborators} (hc : c.FormatsNothing) {raw raw' : Options} {outcome : Outcome}
    (hfirst : (s.runMigration c m raw).2 = .ok outcome)
    (ht : t.project = (s.runMigration c m raw).1.project) :
    t.runMigration d m raw' =
      (t.note (.report m.key m.description []), .ok ⟨m.key, [], false, false⟩) := by
  obtain ⟨name, edit, hedit, hsettles⟩ := migrations_settle hm
  have hbase : ∀ o, edit (.empty s.project) = .ok o → o.project.base = s.project.base :=
    fun o hrun => congrArg Project.base (hsettles s.project o hnumbers hrun).reaches.project
  obtain ⟨o, hrun, hflush⟩ := Session.runMigration_ok hedit hbase hc hfirst
  rw [← ht] at hflush
  have hsettled := hsettles s.project o hnumbers hrun
  exact Session.runMigration_of_idle hedit
    (hsettled.again _ (hsettled.reaches.shows hopen hflush))

/-- Types that are imported, with the package that held them dropped, run once more. -/
theorem runMigration_again_types :
    let s : Session := .start (.ofTexts [("package.json",
      "\x7b\"private\":1,\"devDependencies\":\x7b" ++
        "\"@testing-library/jest-dom\":\"6\",\"@types/testing-library__jest-dom\":\"5\"\x7d\x7d")])
    let m := migrations[2]
    m ∈ migrations ∧ s.project.IsOpen ∧ NumbersReadBack s.project ∧
      Collaborators.none.FormatsNothing ∧
      ∃ outcome t, s.runMigration .none m [] = (t, .ok outcome) ∧ outcome.changes.length = 2 ∧
        t.runMigration .none m [] =
          (t.note (.report m.key m.description []), .ok ⟨m.key, [], false, false⟩) := by
  intro s m
  have hm : m ∈ migrations := List.getElem_mem _
  have hopen : s.project.IsOpen := Project.isOpen_ofTexts _
  have hnumbers : NumbersReadBack s.project := by decide +kernel
  have hc : Collaborators.none.FormatsNothing := fun _ _ _ => rfl
  have hfirst : ∃ outcome ∈ (s.runMigration .none m []).2.toOption,
      outcome.changes.length = 2 := by decide +kernel
  refine ⟨hm, hopen, hnumbers, hc, ?_⟩
  rcases h : s.runMigration .none m [] with ⟨t, e | outcome⟩
  · simp [h, Except.toOption] at hfirst
  · refine ⟨outcome, t, rfl, ?_, ?_⟩
    · simpa [h, Except.toOption] using hfirst
    · exact runMigration_again hm hopen hnumbers hc (by rw [h]) (by rw [h])

end Registry

end Upkeep
