/-
A step as a dialogue.

Whoever works on an overlay asks for files: to read one, to see whether it is there, to list a
directory, to write and to remove.  A `Dialogue` is such work with every request spelled out
and the rest waiting for the answer, so what is asked for can be told whatever the answers are.
For each call on an overlay there is the dialogue that it has, from the base of the project and
the pending records alone; where a session answers, it has the effect of the call.
-/
import Upkeep.Overlay.Listing
import Upkeep.Pipeline.Step
import Upkeep.Proofs.Overlay.InPlace
import Upkeep.Proofs.Overlay.PartialFlush

namespace Upkeep

/-- What is asked of the files and of the formatter, and what is told. -/
inductive Dialogue.Request where
  | read (path : String)
  | isFile (path : String)
  | list (path : String)
  | write (path content : String)
  | remove (path : String)
  | format (path : ProjectPath) (content : String)
  | notice (text : String)

/-- The answers to a request. -/
@[reducible] def Dialogue.Request.Answer : Dialogue.Request → Type
  | read _ => Except StoreError String
  | isFile _ => Bool
  | list _ => Except StoreError (List String)
  | write _ _ | remove _ => Option StoreError
  | format _ _ => Except Failure (Option String)
  | notice _ => Unit

/-- Work that asks for things. -/
inductive Dialogue (α : Type) where
  | done (a : α)
  | ask (r : Dialogue.Request) (next : r.Answer → Dialogue α)

namespace Dialogue

variable {α β σ : Type}

/-- One piece of work and then another. -/
def bind : Dialogue α → (α → Dialogue β) → Dialogue β
  | done a, f => f a
  | ask r next, f => ask r fun answer => (next answer).bind f

instance : Monad Dialogue where
  pure := done
  bind := bind

/-- A request by itself. -/
def request (r : Request) : Dialogue r.Answer := ask r done

/-- Every request that comes up is one of these, whatever is answered. -/
inductive All (P : Request → Prop) : {α : Type} → Dialogue α → Prop where
  | done {α : Type} (a : α) : All P (done a)
  | ask {α : Type} {r : Request} {next : r.Answer → Dialogue α} (h : P r)
      (hnext : ∀ answer, All P (next answer)) : All P (ask r next)

theorem All.pure {P : Request → Prop} (a : α) : All P (Pure.pure a : Dialogue α) := .done a

theorem All.request {P : Request → Prop} {r : Request} (h : P r) : All P (Dialogue.request r) :=
  .ask h .done

theorem All.bind {P : Request → Prop} {d : Dialogue α} {f : α → Dialogue β} (h : All P d)
    (hf : ∀ a, All P (f a)) : All P (d >>= f) := by
  induction h with
  | done a => exact hf a
  | ask h _ ih => exact .ask h ih

/-- The work is done as it is answered, from a state on. -/
def run (answer : σ → (r : Request) → σ × r.Answer) : Dialogue α → σ → σ × α
  | done a, s => (s, a)
  | ask r next, s => (next (answer s r).2).run answer (answer s r).1

variable {answer : σ → (r : Request) → σ × r.Answer}

@[simp] theorem run_pure (a : α) (s : σ) : (Pure.pure a : Dialogue α).run answer s = (s, a) := rfl

@[simp] theorem run_request (r : Request) (s : σ) : (request r).run answer s = answer s r := rfl

@[simp] theorem run_bind (d : Dialogue α) (f : α → Dialogue β) (s : σ) :
    (d >>= f).run answer s = (f (d.run answer s).2).run answer (d.run answer s).1 := by
  induction d generalizing s with
  | done a => rfl
  | ask r next ih => exact ih _ _

/-! ### Looking -/

section
variable (base : String) (records : ChangeSet)

/-- Asks for the content of a file, unless something is pending for it. -/
def contentAt (p : ProjectPath) : Dialogue (Option String) :=
  match Entries.get? records p with
  | some r => pure r.content?
  | none => do
    let answer ← request (.read (p.locate base))
    return answer.toOption

/-- Asks whether the project has a file; its root is none. -/
def storedAt (p : ProjectPath) : Dialogue Bool :=
  if p.names = [] then pure false else request (.isFile (p.locate base))

/-- Asks whether a file is there, unless something is pending for it. -/
def hasAt (p : ProjectPath) : Dialogue Bool :=
  match Entries.get? records p with
  | some r => pure (r.kind ≠ .delete)
  | none => storedAt base p

/-- Asks for the entries of a folder, and puts the pending ones to them. -/
def entriesAt (folder : ProjectPath) : Dialogue (List String) := do
  let answer ← request (.list (folder.locate base))
  let stored := Overlay.sortNames (answer.toOption.getD [])
  let kept := (stored.map (Overlay.entryText folder)).filter fun path =>
    records.named? path ≠ some .delete
  let added := (records.ofKind .add).filter fun p => p.parent = folder
  return kept ++ (added.map ProjectPath.text).filter fun path => path ∉ kept

/-! ### Changing -/

/-- Adds a file where there is none. -/
def addAt (p : ProjectPath) (content : String) : Dialogue (ChangeSet × Option OverlayError) := do
  if ← hasAt base records p then return (records, some (.alreadyExists p))
  else return (Entries.put records p (.add content), none)

/-- Replaces the content of a file. -/
def updateAt (p : ProjectPath) (content : String) :
    Dialogue (ChangeSet × Option OverlayError) := do
  match ← contentAt base records p with
  | none => return (records, some (.notFound p))
  | some current =>
    if current = content then return (records, none)
    else match Entries.get? records p with
      | some (.add _) => return (Entries.put records p (.add content), none)
      | _ => return (Entries.put records p (.update content), none)

/-- Deletes a file. -/
def deleteAt (p : ProjectPath) : Dialogue (ChangeSet × Option OverlayError) :=
  match Entries.get? records p with
  | some (.add _) => return (Entries.erase records p, none)
  | some .delete => return (records, some (.alreadyDeleted p))
  | some (.update _) => return (Entries.put records p .delete, none)
  | none => do
    if ← storedAt base p then return (Entries.put records p .delete, none)
    else return (records, some (.notFound p))

/-- Moves a file: deletes the written source and adds the written target. -/
def renameAt (p q : ProjectPath) : Dialogue (ChangeSet × Option OverlayError) := do
  match ← contentAt base records p with
  | none => return (records, some (.notFound p))
  | some content =>
    if ← hasAt base records q then return (records, some (.alreadyExists q))
    else do
      match ← deleteAt base records (.resolve base p.text) with
      | (records, some e) => return (records, some e)
      | (records, none) => addAt base records (.resolve base q.text) content

/-- A call that changes an overlay. -/
def change : Operation → Dialogue (ChangeSet × Option OverlayError)
  | .add s content => addAt base records (.resolve base s) content
  | .update s content => updateAt base records (.resolve base s) content
  | .delete s => deleteAt base records (.resolve base s)
  | .rename s t => renameAt base records (.resolve base s) (.resolve base t)

/-! ### Carrying out -/

/-- Carries out one change. -/
def apply (p : ProjectPath) : Pending → Dialogue (Option StoreError)
  | .add content | .update content => request (.write (p.locate base) content)
  | .delete => request (.remove (p.locate base))

/-- Carries out changes in order, up to the first that is refused. -/
def flush : ChangeSet → Dialogue (Option FlushError)
  | [] => pure none
  | (p, r) :: rest => do
    match ← apply base p r with
    | none => flush rest
    | some cause => return some ⟨p, cause⟩

end

/-- Has one file formatted. -/
def formatFile (records : ChangeSet) (file : ProjectPath × String) : Dialogue ChangeSet := do
  match ← request (.format file.1 file.2) with
  | .ok (some formatted) =>
    if formatted = file.2 then return records
    match Entries.get? records file.1 with
    | some r => return Entries.put records file.1 (r.withContent formatted)
    | none => return records
  | .ok none => return records
  | .error e => do
    request (.notice s!"Failed to format {file.1.text}: {e.oneLine}")
    return records

/-- Has files formatted, one by one. -/
def formatFiles : List (ProjectPath × String) → ChangeSet → Dialogue ChangeSet
  | [], records => pure records
  | file :: files, records => do formatFiles files (← formatFile records file)

end Dialogue

namespace Session

open Dialogue

variable (c : Collaborators) (s : Session) (records : ChangeSet)

/-- A session answers: from its store, and by its formatter. -/
def answer (s : Session) : (r : Request) → Session × r.Answer
  | .read path => (s, s.project.store.read path)
  | .isFile path => (s, s.project.store.isFile path)
  | .list path => (s, s.project.store.list path)
  | .write path content =>
    let (store, error) := s.project.store.write path content
    ({ s with project := { s.project with store } }, error)
  | .remove path =>
    let (store, error) := s.project.store.remove path
    ({ s with project := { s.project with store } }, error)
  | .format path content =>
    (s.note (.format path content), c.format (s.count Event.isFormat) path content)
  | .notice text => (s.note (.notice text), ())

/-- The overlay of pending records over the project of a session. -/
def overlay (s : Session) (records : ChangeSet) : Overlay := ⟨s.project, records⟩

theorem record?_overlay (p : ProjectPath) :
    (s.overlay records).record? p = Entries.get? records p := rfl

/-- An overlay with the project of the session is that of its records. -/
theorem overlay_of_project {o : Overlay} (h : o.project = s.project) : o = s.overlay o.records := by
  unfold overlay
  rw [← h]

theorem run_contentAt (p : ProjectPath) :
    (contentAt s.project.base records p).run (answer c) s =
      (s, (s.overlay records).contentAt? p) := by
  unfold contentAt Overlay.contentAt?
  rw [record?_overlay]
  cases Entries.get? records p <;> rfl

theorem run_storedAt (p : ProjectPath) :
    (storedAt s.project.base p).run (answer c) s = (s, s.project.isFile p) := by
  unfold storedAt Project.isFile
  by_cases hp : p.names = []
  · simp [hp]
  · rw [if_neg hp, decide_eq_true hp, Bool.true_and]
    rfl

theorem run_hasAt (p : ProjectPath) :
    (hasAt s.project.base records p).run (answer c) s = (s, (s.overlay records).hasAt p) := by
  unfold hasAt Overlay.hasAt
  rw [record?_overlay]
  cases Entries.get? records p with
  | some r => rfl
  | none => exact run_storedAt c s p

theorem run_entriesAt (folder : ProjectPath) :
    (entriesAt s.project.base records folder).run (answer c) s =
      (s, (s.overlay records).entriesAt folder) := rfl

/-- A change in place is told by its records and its refusal. -/
def told (x : Overlay × Option OverlayError) : ChangeSet × Option OverlayError := (x.1.records, x.2)

theorem run_addAt (p : ProjectPath) (content : String) :
    (addAt s.project.base records p content).run (answer c) s =
      (s, told ((s.overlay records).settle ((s.overlay records).addAt p content))) := by
  unfold addAt Overlay.addAt
  simp only [run_bind, run_hasAt]
  split <;> rfl

theorem run_updateAt (p : ProjectPath) (content : String) :
    (updateAt s.project.base records p content).run (answer c) s =
      (s, told ((s.overlay records).settle ((s.overlay records).updateAt p content))) := by
  unfold updateAt Overlay.updateAt
  simp only [run_bind, run_contentAt, record?_overlay]
  cases (s.overlay records).contentAt? p with
  | none => rfl
  | some current =>
      simp only
      split
      · rfl
      · rcases Entries.get? records p with _ | ⟨d⟩ | ⟨d⟩ | _ <;> rfl

theorem run_deleteAt (p : ProjectPath) :
    (deleteAt s.project.base records p).run (answer c) s =
      (s, told ((s.overlay records).settle ((s.overlay records).deleteAt p))) := by
  unfold deleteAt Overlay.deleteAt
  rw [record?_overlay]
  cases Entries.get? records p with
  | some r => cases r <;> rfl
  | none =>
      simp only [run_bind, run_storedAt]
      show _ = (s, told ((s.overlay records).settle (if s.project.isFile p = true then _ else _)))
      split <;> rfl

/-- A renaming has the effect of the two changes in place. -/
theorem run_renameAt (source target : String) :
    (renameAt s.project.base records ((s.overlay records).resolve source)
        ((s.overlay records).resolve target)).run (answer c) s =
      (s, told ((s.overlay records).renameInPlace source target)) := by
  unfold renameAt Overlay.renameInPlace
  simp only [run_bind, run_contentAt]
  cases (s.overlay records).contentAt? ((s.overlay records).resolve source) with
  | none => rfl
  | some content =>
      simp only [run_bind, run_hasAt]
      by_cases hhas : (s.overlay records).hasAt ((s.overlay records).resolve target) = true
      · rw [if_pos hhas, if_pos hhas]
        rfl
      rw [if_neg hhas, if_neg hhas]
      unfold Overlay.delete
      rw [Overlay.resolve_text]
      simp only [run_bind, run_deleteAt, ProjectPath.resolve_text]
      cases hdelete : (s.overlay records).deleteAt ((s.overlay records).resolve source) with
      | error e => rfl
      | ok o =>
          -- The addition starts from the records that the deletion left, on the same project.
          have ho : o = s.overlay o.records :=
            overlay_of_project s (Overlay.deleteAt_project hdelete)
          show (addAt s.project.base o.records _ content).run (answer c) s =
            (s, told (o.settle (o.addAt (o.resolve _) content)))
          rw [run_addAt, ← ho, Overlay.resolve_text]

/-- **A change has the effect of the call**, and of the session it changes nothing. -/
theorem run_change (op : Operation) :
    (change s.project.base records op).run (answer c) s =
      (s, told ((s.overlay records).inPlace op)) := by
  cases op with
  | add path content => exact run_addAt c s records _ content
  | update path content => exact run_updateAt c s records _ content
  | delete path => exact run_deleteAt c s records _
  | rename source target => exact run_renameAt c s records source target

theorem run_apply (p : ProjectPath) (r : Pending) :
    (Dialogue.apply s.project.base p r).run (answer c) s =
      ({ s with project := (s.project.apply p r).1 }, (s.project.apply p r).2) := by
  cases r <;> rfl

/-- **Carrying out has the effect that it has on the project.** -/
theorem run_flush :
    (Dialogue.flush s.project.base records).run (answer c) s =
      ({ s with project := (s.project.applyAll records).1 }, (s.project.applyAll records).2) := by
  induction records generalizing s with
  | nil => rfl
  | cons change rest ih =>
      obtain ⟨p, r⟩ := change
      unfold Dialogue.flush Project.applyAll
      simp only [run_bind, run_apply]
      rcases happly : s.project.apply p r with ⟨project, _ | cause⟩
      · -- The rest is asked of the files as this change left them, at the same base.
        have hbase : project.base = s.project.base := by
          have h := s.project.base_apply p r
          rwa [happly] at h
        show (Dialogue.flush s.project.base rest).run (answer c) { s with project } = _
        rw [← hbase]
        exact ih { s with project }
      · rfl

theorem run_formatFile (o : Overlay) (file : ProjectPath × String) :
    (Dialogue.formatFile o.records file).run (answer c) s =
      ((formatFile c (o, s) file).2, (formatFile c (o, s) file).1.records) := by
  obtain ⟨p, content⟩ := file
  unfold Dialogue.formatFile formatFile
  have hask : (request (.format p content)).run (answer c) s =
      (s.note (.format p content), c.format (s.count Event.isFormat) p content) := rfl
  rw [run_bind, hask]
  simp only
  rcases c.format (s.count Event.isFormat) p content with e | _ | formatted
  · rfl
  · rfl
  · by_cases hsame : formatted = content
    · simp only [if_pos hsame]
      rfl
    · simp only [if_neg hsame]
      unfold Overlay.reword Overlay.record?
      cases Entries.get? o.records p <;> rfl

/-- **Formatting has the effect of a session's formatter.** -/
theorem run_formatFiles (o : Overlay) (files : List (ProjectPath × String)) :
    (formatFiles files o.records).run (answer c) s =
      ((files.foldl (formatFile c) (o, s)).2, (files.foldl (formatFile c) (o, s)).1.records) := by
  induction files generalizing s o with
  | nil => rfl
  | cons file files ih =>
      unfold formatFiles
      simp only [run_bind, run_formatFile]
      exact ih (formatFile c (o, s) file).2 (formatFile c (o, s) file).1

end Session

end Upkeep
