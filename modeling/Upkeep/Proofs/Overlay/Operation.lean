/-
Calls that change an overlay.

An `Operation` is one call with its paths as they are spelled; a refused call leaves the
overlay as it was.  For each of the four there is one lemma that says what an accepted
call does to the records, and everything else about runs is read off those.
-/
import Upkeep.Overlay
import Upkeep.Proofs.Project

namespace Upkeep

/-- A call that changes an overlay. -/
inductive Operation where
  | add (path content : String)
  | update (path content : String)
  | delete (path : String)
  | rename (source target : String)
  deriving DecidableEq

namespace Operation

/-- The paths that a call names. -/
def paths (base : String) : Operation → List ProjectPath
  | add s _ | update s _ | delete s => [.resolve base s]
  | rename s t => [.resolve base s, .resolve base t]

/-- The path that a call takes away. -/
def source? (base : String) : Operation → Option ProjectPath
  | delete s | rename s _ => some (.resolve base s)
  | add .. | update .. => none

/-- The path that a call puts where there was none. -/
def target? (base : String) : Operation → Option ProjectPath
  | add s _ => some (.resolve base s)
  | rename _ t => some (.resolve base t)
  | update .. | delete _ => none

end Operation

namespace Overlay

/-- Carries out one call. -/
def perform (o : Overlay) : Operation → Except OverlayError Overlay
  | .add s content => o.add s content
  | .update s content => o.update s content
  | .delete s => o.delete s
  | .rename s t => o.rename s t

/-- The overlay that the caller goes on with. -/
def after (o : Overlay) (op : Operation) : Overlay := (o.perform op).toOption.getD o

/-- The overlay after calls in turn, refused ones included. -/
def run (o : Overlay) (ops : List Operation) : Overlay := ops.foldl after o

theorem run_append (o : Overlay) (ops ops' : List Operation) :
    o.run (ops ++ ops') = (o.run ops).run ops' := List.foldl_append

theorem after_of_ok {o o' : Overlay} {op : Operation} (h : o.perform op = .ok o') :
    o.after op = o' := by
  unfold after
  rw [h]
  rfl

theorem after_of_error {o : Overlay} {op : Operation} {e : OverlayError}
    (h : o.perform op = .error e) : o.after op = o := by
  unfold after
  rw [h]
  rfl

/-- The second overlay is the first after some calls. -/
def Reaches (o o' : Overlay) : Prop := ∃ ops, o' = o.run ops

namespace Reaches

variable {o o' o'' : Overlay}

theorem refl (o : Overlay) : Reaches o o := ⟨[], rfl⟩

theorem trans (h : Reaches o o') (h' : Reaches o' o'') : Reaches o o'' := by
  obtain ⟨ops, rfl⟩ := h
  obtain ⟨ops', rfl⟩ := h'
  exact ⟨ops ++ ops', (run_append o ops ops').symm⟩

theorem perform {op : Operation} (h : o.perform op = .ok o') : Reaches o o' :=
  ⟨[op], (after_of_ok h).symm⟩

end Reaches

/-! ### Records -/

/-- The overlay with nothing pending for the path. -/
def forget (o : Overlay) (p : ProjectPath) : Overlay := { o with records := o.records.erase p }

variable {o o' : Overlay} {p q : ProjectPath}

@[simp] theorem put_project (r : Pending) : (o.put p r).project = o.project := rfl

@[simp] theorem forget_project : (o.forget p).project = o.project := rfl

theorem record?_put (r : Pending) :
    (o.put p r).record? q = if p = q then some r else o.record? q :=
  Entries.get?_put o.records p r q

theorem record?_forget : (o.forget p).record? q = if p = q then none else o.record? q :=
  Entries.get?_erase o.records p q

/-- What is on record after a change was put there is that change, or was on record before. -/
theorem record?_of_put {r s : Pending} (h : (o.put p r).record? q = some s) :
    (p = q ∧ r = s) ∨ o.record? q = some s := by
  rw [record?_put] at h
  split at h
  next hpq => exact .inl ⟨hpq, Option.some.inj h⟩
  next => exact .inr h

theorem record?_of_forget {s : Pending} (h : (o.forget p).record? q = some s) :
    o.record? q = some s := by
  rw [record?_forget] at h
  split at h
  · cases h
  · exact h

theorem record?_reword (content : String) :
    (o.reword p content).record? q =
      if p = q then (o.record? p).map (Pending.withContent content) else o.record? q := by
  unfold reword
  rcases hr : o.record? p with _ | r
  · simp only
    split
    next hpq => rw [← hpq, hr]; rfl
    next => rfl
  · simp only
    rw [record?_put]
    rfl

@[simp] theorem reword_project (content : String) : (o.reword p content).project = o.project := by
  unfold reword
  split <;> rfl

theorem resolve_of_project (h : o'.project = o.project) (s : String) :
    o'.resolve s = o.resolve s := by
  unfold resolve
  rw [h]

/-- A path that is written down and read again is the same path, whatever has been changed
since. -/
theorem resolve_text (o : Overlay) (p : ProjectPath) : o.resolve p.text = p :=
  ProjectPath.resolve_text o.project.base p

/-- A written path is shown as the path that it was written for. -/
theorem content?_text (o : Overlay) (p : ProjectPath) : o.content? p.text = o.contentAt? p := by
  unfold content?
  rw [resolve_text]

/-- A written path is there if the path is. -/
theorem has_text (o : Overlay) (p : ProjectPath) : o.has p.text = o.hasAt p := by
  unfold has
  rw [resolve_text]

theorem contentAt?_congr (hproject : o'.project = o.project)
    (hrecord : o'.record? q = o.record? q) : o'.contentAt? q = o.contentAt? q := by
  unfold contentAt?
  rw [hrecord, hproject]

theorem hasAt_congr (hproject : o'.project = o.project)
    (hrecord : o'.record? q = o.record? q) : o'.hasAt q = o.hasAt q := by
  unfold hasAt
  rw [hrecord, hproject]

theorem contentAt?_put (r : Pending) :
    (o.put p r).contentAt? q = if p = q then r.content? else o.contentAt? q := by
  unfold contentAt?
  rw [record?_put]
  by_cases h : p = q
  · rw [if_pos h, if_pos h]
  · rw [if_neg h, if_neg h, put_project]

theorem contentAt?_forget :
    (o.forget p).contentAt? q = if p = q then o.project.content? q else o.contentAt? q := by
  unfold contentAt?
  rw [record?_forget]
  by_cases h : p = q
  · rw [if_pos h, if_pos h, forget_project]
  · rw [if_neg h, if_neg h, forget_project]

theorem contentAt?_of_record? {r : Pending} (h : o.record? p = some r) :
    o.contentAt? p = r.content? := by
  unfold contentAt?
  rw [h]

theorem contentAt?_of_none (h : o.record? p = none) : o.contentAt? p = o.project.content? p := by
  unfold contentAt?
  rw [h]

/-- A file that has a content is there. -/
theorem hasAt_of_contentAt? {content : String} (hp : p.names ≠ [])
    (h : o.contentAt? p = some content) : o.hasAt p = true := by
  unfold contentAt? at h
  unfold hasAt
  cases hrecord : o.record? p with
  | some r =>
      rw [hrecord] at h
      cases r with
      | delete => cases h
      | _ => rfl
  | none =>
      rw [hrecord] at h
      have hread : o.project.read p = .ok content := by
        unfold Project.content? at h
        cases hresult : o.project.read p with
        | error e => simp [hresult, Except.toOption] at h
        | ok text => simpa [hresult, Except.toOption] using h
      show (p.names ≠ [] && o.project.store.isFile _) = true
      rw [Store.isFile_of_read hread, decide_eq_true hp]
      rfl

/-- Over a project in which everything can be read, a file is there exactly when it has a
content. -/
theorem hasAt_eq (h : o.project.IsOpen) (hp : p.names ≠ []) :
    o.hasAt p = (o.contentAt? p).isSome := by
  unfold hasAt contentAt?
  cases o.record? p with
  | none =>
      simp only
      rw [h.isFile_eq, decide_eq_true hp, Bool.true_and]
  | some r => cases r <;> rfl

/-! ### What an accepted call does -/

theorem addAt_ok {content : String} (h : o.addAt p content = .ok o') :
    o.hasAt p = false ∧ o' = o.put p (.add content) := by
  unfold addAt at h
  split at h
  · simp at h
  next hhas =>
    cases h
    exact ⟨by simpa using hhas, rfl⟩

/-- An accepted update leaves everything as it is, or reworks a pending addition, or
records an update of a file that the project has. -/
theorem updateAt_ok {content : String} (h : o.updateAt p content = .ok o') :
    ∃ current, o.contentAt? p = some current ∧
      ((current = content ∧ o' = o) ∨
        ((∃ d, o.record? p = some (.add d)) ∧ o' = o.put p (.add content)) ∨
        ((o.record? p = none ∨ ∃ d, o.record? p = some (.update d)) ∧
          current ≠ content ∧ o' = o.put p (.update content))) := by
  unfold updateAt at h
  split at h
  · simp at h
  next current hcurrent =>
    refine ⟨current, hcurrent, ?_⟩
    split at h
    next hsame =>
      cases h
      exact Or.inl ⟨hsame, rfl⟩
    next hne =>
      split at h
      next d hd =>
        cases h
        exact Or.inr (Or.inl ⟨⟨d, hd⟩, rfl⟩)
      next hadd =>
        cases h
        refine Or.inr (Or.inr ⟨?_, hne, rfl⟩)
        rcases hr : o.record? p with _ | ⟨d⟩ | ⟨d⟩ | _
        · exact Or.inl rfl
        · exact absurd hr (hadd d)
        · exact Or.inr ⟨d, rfl⟩
        · rw [contentAt?_of_record? hr] at hcurrent
          simp [Pending.content?] at hcurrent

/-- An accepted deletion forgets a pending addition, or is recorded for a file that the
project has. -/
theorem deleteAt_ok (h : o.deleteAt p = .ok o') :
    ((∃ d, o.record? p = some (.add d)) ∧ o' = o.forget p) ∨
      (((∃ d, o.record? p = some (.update d)) ∨ (o.record? p = none ∧ o.project.isFile p = true)) ∧
        o' = o.put p .delete) := by
  unfold deleteAt at h
  split at h
  next d hd =>
    cases h
    exact Or.inl ⟨⟨d, hd⟩, rfl⟩
  next => simp at h
  next d hd =>
    cases h
    exact Or.inr ⟨Or.inl ⟨d, hd⟩, rfl⟩
  next hnone =>
    split at h
    next hfile =>
      cases h
      exact Or.inr ⟨Or.inr ⟨hnone, hfile⟩, rfl⟩
    next => simp at h

/-- An accepted renaming is a deletion and an addition, both accepted. -/
theorem renameAt_ok (h : o.renameAt p q = .ok o') :
    ∃ content o₁, o.contentAt? p = some content ∧ o.hasAt q = false ∧
      o.deleteAt p = .ok o₁ ∧ o₁.addAt q content = .ok o' := by
  unfold renameAt at h
  split at h
  · simp at h
  next content hcontent =>
    split at h
    · simp at h
    next hhas =>
      cases hdel : o.deleteAt p with
      | error e => simp [hdel, bind, Except.bind] at h
      | ok o₁ =>
          simp only [hdel, bind, Except.bind] at h
          exact ⟨content, o₁, hcontent, by simpa using hhas, rfl, h⟩

/-! ### The project below -/

/-- An accepted call keeps the project. -/
theorem perform_project {op : Operation} (h : o.perform op = .ok o') :
    o'.project = o.project := by
  cases op with
  | add s content =>
      obtain ⟨-, rfl⟩ := addAt_ok h
      rfl
  | update s content =>
      obtain ⟨current, -, ⟨-, rfl⟩ | ⟨-, rfl⟩ | ⟨-, -, rfl⟩⟩ := updateAt_ok h <;> rfl
  | delete s => obtain ⟨-, rfl⟩ | ⟨-, rfl⟩ := deleteAt_ok h <;> rfl
  | rename s t =>
      obtain ⟨content, o₁, -, -, hdelete, hadd⟩ := renameAt_ok h
      obtain ⟨-, rfl⟩ := addAt_ok hadd
      obtain ⟨-, rfl⟩ | ⟨-, rfl⟩ := deleteAt_ok hdelete <;> rfl

theorem after_project (o : Overlay) (op : Operation) : (o.after op).project = o.project := by
  cases h : o.perform op with
  | ok o' => rw [after_of_ok h, perform_project h]
  | error e => rw [after_of_error h]

theorem run_project (o : Overlay) (ops : List Operation) : (o.run ops).project = o.project := by
  induction ops generalizing o with
  | nil => rfl
  | cons op ops ih => exact (ih (o.after op)).trans (after_project o op)

/-- Calls keep the project. -/
theorem Reaches.project (h : Reaches o o') : o'.project = o.project := by
  obtain ⟨ops, rfl⟩ := h
  exact run_project o ops

/-! ### The records that calls leave -/

theorem distinct_perform (h : o.records.Distinct) {op : Operation} (hop : o.perform op = .ok o') :
    o'.records.Distinct := by
  have hadd : ∀ {o o' : Overlay} {p content}, o.records.Distinct → o.addAt p content = .ok o' →
      o'.records.Distinct := by
    intro o o' p content h hadd
    obtain ⟨-, rfl⟩ := addAt_ok hadd
    exact h.put p _
  have hdelete : ∀ {o' : Overlay} {p}, o.deleteAt p = .ok o' → o'.records.Distinct := by
    intro o' p hdelete
    obtain ⟨-, rfl⟩ | ⟨-, rfl⟩ := deleteAt_ok hdelete
    · exact h.erase p
    · exact h.put p _
  cases op with
  | add s content => exact hadd h hop
  | update s content =>
      obtain ⟨current, -, ⟨-, rfl⟩ | ⟨-, rfl⟩ | ⟨-, -, rfl⟩⟩ := updateAt_ok hop
      · exact h
      · exact h.put _ _
      · exact h.put _ _
  | delete s => exact hdelete hop
  | rename s t =>
      obtain ⟨content, o₁, -, -, hsource, htarget⟩ := renameAt_ok hop
      exact hadd (hdelete hsource) htarget

/-- An update that is recorded after an accepted call was recorded before, or the call is that
update, of a file that was shown with another content. -/
theorem record?_update_cases {op : Operation} {content : String} (h : o.perform op = .ok o')
    (hrecord : o'.record? q = some (.update content)) :
    o.record? q = some (.update content) ∨
      ∃ path current, op = .update path content ∧ o.resolve path = q ∧
        o.contentAt? q = some current ∧ current ≠ content ∧
          (o.record? q = none ∨ ∃ d, o.record? q = some (.update d)) := by
  -- Additions and deletions, and so renamings, put no update on record.
  have hother : ∀ {o₁ : Overlay} {r : ProjectPath} {s : Pending}, s ≠ .update content →
      (o₁.put r s).record? q = some (.update content) →
      o₁.record? q = some (.update content) := by
    intro o₁ r s hne h
    exact (record?_of_put h).resolve_left fun hsame => hne hsame.2
  have hadd : ∀ {o₁ o₂ : Overlay} {r : ProjectPath} {d : String}, o₁.addAt r d = .ok o₂ →
      o₂.record? q = some (.update content) → o₁.record? q = some (.update content) := by
    intro o₁ o₂ r d h hrecord
    obtain ⟨-, rfl⟩ := addAt_ok h
    exact hother (by simp) hrecord
  have hdelete : ∀ {o₂ : Overlay} {r : ProjectPath}, o.deleteAt r = .ok o₂ →
      o₂.record? q = some (.update content) → o.record? q = some (.update content) := by
    intro o₂ r h hrecord
    obtain ⟨-, rfl⟩ | ⟨-, rfl⟩ := deleteAt_ok h
    · exact record?_of_forget hrecord
    · exact hother (by simp) hrecord
  cases op with
  | add path d => exact .inl (hadd h hrecord)
  | delete path => exact .inl (hdelete h hrecord)
  | rename source target =>
      obtain ⟨d, o₁, -, -, hdel, hput⟩ := renameAt_ok h
      exact .inl (hdelete hdel (hadd hput hrecord))
  | update path d =>
      obtain ⟨current, hcurrent, ⟨-, rfl⟩ | ⟨-, rfl⟩ | ⟨hbefore, hne, rfl⟩⟩ := updateAt_ok h
      · exact .inl hrecord
      · exact .inl (hother (by simp) hrecord)
      · rcases record?_of_put hrecord with ⟨rfl, hsame⟩ | hrecorded
        · cases hsame
          exact .inr ⟨path, current, rfl, rfl, hcurrent, hne, hbefore⟩
        · exact .inl hrecorded

end Overlay

end Upkeep
