/-
Updates that amount to nothing.

An update is not recorded where the file has its content already, and what counts for that is
what the overlay shows, pending changes included.  So a first update to what the project has is
passed over, but one that follows another update is recorded though it restores what the
project has.  That is the only way in which the record of an update comes to say nothing, and
such a record stands until the path is touched again: updates alone never take a record away.

A step reports the records that its codemod leaves, and asks for its checkpoint where there is
one, be it such a record or not.
-/
import Mathlib.Data.List.Induction
import Upkeep.Proofs.Pipeline.Trace

namespace Upkeep

namespace Overlay

variable {o o' : Overlay} {p : Project} {q : ProjectPath} {op : Operation}
  {ops : List Operation} {content : String}

/-- The record of the path is an update to what the project has there. -/
def Idle (o : Overlay) (q : ProjectPath) (content : String) : Prop :=
  o.record? q = some (.update content) ∧ o.project.content? q = some content

/-- The call updates the path to this content while an update to another one is pending. -/
def Rewrites (o : Overlay) (q : ProjectPath) (content : String) (op : Operation) : Prop :=
  ∃ path other, op = .update path content ∧ o.resolve path = q ∧
    o.record? q = some (.update other) ∧ other ≠ content

/-- **A record comes to say nothing only by a call that writes back what the project has.** -/
theorem idle_after (h : (o.after op).Idle q content) :
    o.Idle q content ∨ o.Rewrites q content op := by
  obtain ⟨hrecord, hproject⟩ := h
  rw [after_project] at hproject
  cases hop : o.perform op with
  | error e =>
      rw [after_of_error hop] at hrecord
      exact .inl ⟨hrecord, hproject⟩
  | ok o' =>
      rw [after_of_ok hop] at hrecord
      rcases record?_update_cases hop hrecord with
        hbefore | ⟨path, current, rfl, hpath, hcurrent, hne, hnone | ⟨other, hother⟩⟩
      · exact .inl ⟨hbefore, hproject⟩
      · -- Without a record the file is shown as the project has it, and nothing is recorded.
        rw [contentAt?_of_none hnone, hproject] at hcurrent
        exact absurd (Option.some.inj hcurrent).symm hne
      · refine .inr ⟨path, other, rfl, hpath, hother, ?_⟩
        rw [contentAt?_of_record? hother] at hcurrent
        rwa [Option.some.inj hcurrent]

/-- A call wrote the content that the project has over a pending update to another one, and the
record has stood ever since. -/
def WrittenBack (p : Project) (ops : List Operation) (q : ProjectPath) (content : String) : Prop :=
  p.content? q = some content ∧
    ∃ before op after, ops = before ++ op :: after ∧
      ((empty p).run before).Rewrites q content op ∧
        ∀ since later, after = since ++ later →
          ((empty p).run (before ++ op :: since)).record? q = some (.update content)

/-- **The record of an update says nothing exactly where its content was written back.** -/
theorem idle_run_iff (p : Project) (ops : List Operation) (q : ProjectPath) (content : String) :
    ((empty p).run ops).Idle q content ↔ WrittenBack p ops q content := by
  constructor
  · -- By induction from the end: the last call leaves the record as it was, or writes back.
    intro h
    induction ops using List.reverseRecOn with
    | nil =>
        obtain ⟨hrecord, -⟩ := h
        cases hrecord
    | append_singleton ops op ih =>
        have hafter : (((empty p).run ops).after op).Idle q content := by
          rwa [run_append] at h
        obtain ⟨hrecord, hproject⟩ := h
        have hcontent : p.content? q = some content := by rwa [run_project] at hproject
        rcases idle_after hafter with hidle | hrewrites
        · obtain ⟨-, before, first, after, rfl, hfirst, hsince⟩ := ih hidle
          refine ⟨hcontent, before, first, after ++ [op], by simp, hfirst, fun since later h => ?_⟩
          -- After the last call the record stands by assumption, before it by induction.
          rcases List.eq_nil_or_concat later with rfl | ⟨later, last, rfl⟩
          · rw [List.append_nil] at h
            rw [← h, ← List.cons_append, ← List.append_assoc]
            exact hrecord
          · rw [List.concat_eq_append, ← List.append_assoc] at h
            exact hsince since later (List.append_inj' h rfl).1
        · refine ⟨hcontent, ops, op, [], rfl, hrewrites, fun since later h => ?_⟩
          obtain ⟨rfl, -⟩ := List.append_eq_nil_iff.mp h.symm
          exact hrecord
  · rintro ⟨hcontent, before, op, after, rfl, -, hsince⟩
    exact ⟨hsince after [] (List.append_nil _).symm, by rw [run_project]; exact hcontent⟩

/-! ### Updates alone -/

theorem records_put_ne_nil (o : Overlay) (q : ProjectPath) (r : Pending) :
    (o.put q r).records ≠ [] := by
  intro h
  have hget : (o.put q r).records.get? q = some r := Entries.get?_put_self o.records q r
  rw [h] at hget
  cases hget

/-- An update takes no record away. -/
theorem records_ne_nil_of_update (h : o.records ≠ []) (path content : String) :
    (o.after (.update path content)).records ≠ [] := by
  cases hop : o.perform (.update path content) with
  | error e => rwa [after_of_error hop]
  | ok o' =>
      rw [after_of_ok hop]
      obtain ⟨current, -, ⟨-, rfl⟩ | ⟨-, rfl⟩ | ⟨-, -, rfl⟩⟩ := updateAt_ok hop
      · exact h
      · exact records_put_ne_nil o _ _
      · exact records_put_ne_nil o _ _

/-- Where nothing is pending an update is passed over if it is refused, or tells what the project
has. -/
theorem records_update_eq_nil_iff (h : o.records = []) (path content : String) :
    (o.after (.update path content)).records = [] ↔
      ∀ current, o.project.content? (o.resolve path) = some current → current = content := by
  have hnone : o.record? (o.resolve path) = none := by
    unfold record?
    rw [h]
    rfl
  have hcurrent := contentAt?_of_none hnone
  cases hop : o.perform (.update path content) with
  | error e =>
      rw [after_of_error hop]
      refine iff_of_true h fun current hcontent => ?_
      have hop : o.updateAt (o.resolve path) content = .error e := hop
      unfold updateAt at hop
      rw [hcurrent, hcontent, hnone] at hop
      simp only at hop
      split at hop <;> cases hop
  | ok o' =>
      rw [after_of_ok hop]
      obtain ⟨current, hshown, ⟨rfl, rfl⟩ | ⟨⟨d, hd⟩, -⟩ | ⟨-, hne, rfl⟩⟩ := updateAt_ok hop
      · refine iff_of_true h fun other hother => ?_
        rw [hcurrent, hother] at hshown
        exact Option.some.inj hshown
      · rw [hnone] at hd
        cases hd
      · refine iff_of_false (records_put_ne_nil o _ _) fun hsame => hne (hsame current ?_)
        rwa [hcurrent] at hshown

/-- The calls are updates, each of a path to a content. -/
def OnlyUpdates (ops : List Operation) : Prop :=
  ∀ op ∈ ops, ∃ path content, op = .update path content

/-- **Updates alone leave nothing pending only if none of them ever told anything new**; that they
cancel out does not suffice. -/
theorem records_run_eq_nil_iff (hops : OnlyUpdates ops) :
    ((empty p).run ops).records = [] ↔
      ∀ path content, .update path content ∈ ops →
        ∀ current, p.content? (p.resolve path) = some current → current = content := by
  induction ops using List.reverseRecOn with
  | nil => simp [empty, run]
  | append_singleton ops op ih =>
      obtain ⟨path, content, rfl⟩ := hops op (by simp)
      have ih := ih fun op hop => hops op (by simp [hop])
      have hproject := run_project (empty p) ops
      have hafter : (empty p).run (ops ++ [.update path content]) =
          ((empty p).run ops).after (.update path content) := run_append _ ops _
      rw [hafter]
      by_cases hnil : ((empty p).run ops).records = []
      · rw [records_update_eq_nil_iff hnil, hproject, resolve_of_project hproject]
        constructor
        · intro hlast path' content' hmem
          rcases List.mem_append.mp hmem with hmem | hmem
          · exact ih.mp hnil path' content' hmem
          · cases List.mem_singleton.mp hmem
            exact hlast
        · intro hall
          exact hall path content (by simp)
      · refine iff_of_false (records_ne_nil_of_update hnil path content) fun hall => ?_
        exact hnil (ih.mpr fun path' content' hmem => hall path' content' (by simp [hmem]))

end Overlay

/-- Changes with the same outline are none or some alike. -/
theorem ChangeSet.eq_nil_iff_of_outline {changes changes' : ChangeSet}
    (h : changes'.outline = changes.outline) : changes' = [] ↔ changes = [] := by
  rw [← List.map_eq_nil_iff, ← List.map_eq_nil_iff (l := changes)]
  exact iff_of_eq (congrArg (· = []) h)

namespace Session

variable {c : Collaborators} {s s' : Session} {step : Step} {raw : Options} {o : Overlay}
  {outcome : Outcome}

/-- In an open project a step comes to its checkpoint, once its codemod has left an overlay that
calls lead to. -/
theorem apply_done (c : Collaborators) (hopen : s.project.IsOpen)
    (hexecute : (s.execute step raw).2 = .ok o)
    (hreaches : (Overlay.empty s.project).Reaches o) :
    ∃ s' outcome, s.apply c step raw = (s', .ok outcome) ∧
      outcome.changes.outline = o.records.outline := by
  have hproject : o.project = s.project := hreaches.project
  have G : o.Grounded := hreaches.grounded hopen
  obtain ⟨flushed, hflush, -⟩ := flush_formatAll (c := c) hopen G hproject
  obtain ⟨houtline, -⟩ := formatAll_records (c := c) s G.distinct
  have happly : s.apply c step raw = s.carryOut c step o := by
    unfold apply
    rw [execute_eq hexecute, hproject]
    rfl
  rw [happly]
  unfold carryOut flush
  rcases hformat : s.formatAll c o with ⟨o', s₁⟩
  rw [hformat] at hflush houtline
  simp only at hflush houtline ⊢
  rw [hflush]
  exact ⟨_, _, rfl, houtline⟩

/-- A checkpoint is asked for where there are changes. -/
theorem runStep_trace (happly : s.apply c step raw = (s', .ok outcome)) :
    (s.runStep c step raw).1.trace = s'.trace ++
      if outcome.changes = [] then [] else c.committing s'.project step.commitMessage := by
  unfold runStep
  rw [happly]
  simp only
  split
  · exact (List.append_nil _).symm
  · rw [commitStep_fst]
    rfl

/-- The changes of a step are reported before its checkpoint. -/
theorem report_mem_trace (happly : s.apply c step raw = (s', .ok outcome)) :
    ∃ flushed, ⟨.report step.name step.description outcome.changes, flushed⟩ ∈ s'.trace := by
  obtain ⟨o, flushed, -, -, -, rfl⟩ := apply_ok happly
  obtain ⟨later, hlater⟩ := install_trace (c := c)
    ((s.atop o.project.store).reported c step o outcome.changes flushed.store)
    ⟨flushed, outcome.changes⟩
  refine ⟨s.project.atop flushed.store, ?_⟩
  rw [hlater]
  refine List.mem_append_left _ (List.mem_append_right _ (List.mem_append_right _ ?_))
  exact List.mem_singleton_self _

/-- **An update is recorded though it says nothing exactly where it was written back.**

For any calls, a record updates its file to what the project has if and only if a call wrote that
content over a pending update to another one, and the record has stood since.  Calls that only
update leave nothing pending if and only if each of them told what the project has, so updates
that cancel out leave their records; and a step whose codemod makes these calls reports changes,
and asks for its checkpoint where there is one, if and only if a record is left, whether that
record says anything or not. -/
theorem update_idle_iff_written_back (c : Collaborators) (s : Session) (step : Step)
    (raw : Options) (ops : List Operation) (hopen : s.project.IsOpen)
    (hexecute : (s.execute step raw).2 = .ok ((Overlay.empty s.project).run ops)) :
    (∀ q content, ((Overlay.empty s.project).run ops).Idle q content ↔
      Overlay.WrittenBack s.project ops q content) ∧
    (Overlay.OnlyUpdates ops → (((Overlay.empty s.project).run ops).records = [] ↔
      ∀ path content, .update path content ∈ ops →
        ∀ current, s.project.content? (s.project.resolve path) = some current →
          current = content)) ∧
    ∃ s' outcome, s.apply c step raw = (s', .ok outcome) ∧
      (∃ flushed, ⟨.report step.name step.description outcome.changes, flushed⟩ ∈ s'.trace) ∧
      (outcome.changes = [] ↔ ((Overlay.empty s.project).run ops).records = []) ∧
      (s.runStep c step raw).1.trace = s'.trace ++
        if outcome.changes = [] then [] else c.committing s'.project step.commitMessage := by
  obtain ⟨s', outcome, happly, houtline⟩ := apply_done c hopen hexecute ⟨ops, rfl⟩
  exact ⟨Overlay.idle_run_iff s.project ops, Overlay.records_run_eq_nil_iff, s', outcome, happly,
    report_mem_trace happly, ChangeSet.eq_nil_iff_of_outline houtline, runStep_trace happly⟩

/-- A codemod that updates a file and then restores it changes nothing, and is reported and
committed. -/
theorem update_idle_restored :
    let p : Project := .ofTexts [("a", "x")]
    let ops : List Operation := [.update "a" "y", .update "a" "x"]
    let edit : Codemod := .ofEdit "edit" none fun o _ => .ok (o.run ops)
    let step : Step := .migration ⟨"001-edit", "1.1.0", "Edits", edit⟩
    let c : Collaborators := { Collaborators.none with checkpoint := some fun _ _ => .ok () }
    p.IsOpen ∧ Overlay.WrittenBack p ops (p.resolve "a") "x" ∧
      ∃ s' outcome, (start p).apply c step [] = (s', .ok outcome) ∧ outcome.changes ≠ [] ∧
        ((start p).runStep c step []).1.trace =
          s'.trace ++ [⟨.commit step.commitMessage, s'.project⟩] := by
  intro p ops edit step c
  have hopen : p.IsOpen := Project.isOpen_ofTexts _
  have hexecute : ((start p).execute step []).2 = .ok ((Overlay.empty p).run ops) := rfl
  obtain ⟨hidle, hupdates, s', outcome, happly, -, hempty, htrace⟩ :=
    update_idle_iff_written_back c (start p) step [] ops hopen hexecute
  have honly : Overlay.OnlyUpdates ops := by
    intro op hop
    simp only [ops, List.mem_cons, List.not_mem_nil, or_false] at hop
    rcases hop with rfl | rfl
    · exact ⟨_, _, rfl⟩
    · exact ⟨_, _, rfl⟩
  have hchanges : outcome.changes ≠ [] := fun hnil => by
    have hsame := (hupdates honly).mp (hempty.mp hnil) "a" "y" (by simp [ops]) "x"
      (by decide +kernel)
    exact absurd hsame (by decide)
  rw [if_neg hchanges] at htrace
  exact ⟨hopen, (hidle _ _).mp ⟨by decide +kernel, by decide +kernel⟩, s', outcome, happly,
    hchanges, htrace⟩

end Session

end Upkeep
