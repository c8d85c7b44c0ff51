/-
What a project holds.

The paths of a project lie at places of their own, so writing or removing one file leaves
all others as they are, on a disk as in memory.  A project in memory to which no access is
denied is more than that: it is a map from paths to contents, in which every write succeeds
and every removal of a file that is there.
-/
import Upkeep.Project
import Upkeep.Proofs.Location
import Upkeep.Proofs.Store

namespace Upkeep.Project

/-- What the project holds at a path, whatever refuses an access to it. -/
def held (p : Project) (q : ProjectPath) : Option Content :=
  p.store.held (Path.components (q.locate p.base))

theorem samePlace_locate_iff (s : Store) (base : String) (q r : ProjectPath) :
    s.SamePlace (Path.components (q.locate base)) (Path.components (r.locate base)) ↔ q = r := by
  constructor
  · intro h
    cases s with
    | memory m => exact ProjectPath.locate_injective h
    | disk d =>
        have hl : Disk.lands d.current (Path.components (q.locate base)) =
            Disk.lands d.current (Path.components (r.locate base)) := h
        rw [ProjectPath.components_locate, ProjectPath.components_locate, Disk.lands_append,
          Disk.lands_append, Disk.lands_names, Disk.lands_names] at hl
        exact ProjectPath.ext_names (List.append_cancel_left hl)
  · rintro rfl
    cases s <;> rfl

theorem held_of_content? {p : Project} {q : ProjectPath} {text : String}
    (h : p.content? q = some text) : p.held q = some (.text text) := by
  unfold content? at h
  cases hread : p.read q with
  | error e => simp [hread, Except.toOption] at h
  | ok read =>
      simp only [hread, Except.toOption, Option.some.injEq] at h
      exact h ▸ Store.held_of_read hread

theorem held_write {p p' : Project} {q : ProjectPath} {content : String}
    (h : p.write q content = (p', none)) :
    p'.base = p.base ∧ ∀ r, p'.held r = if q = r then some (.text content) else p.held r := by
  rcases hw : p.store.write (q.locate p.base) content with ⟨store, error⟩
  simp only [write, hw] at h
  cases h
  refine ⟨rfl, fun r => ?_⟩
  unfold held
  rw [Store.held_write hw]
  exact if_congr (samePlace_locate_iff _ _ _ _) rfl rfl

theorem content?_write {p p' : Project} {q : ProjectPath} {content : String}
    (hread : ¬p.store.Denies (q.locate p.base) .read) (h : p.write q content = (p', none)) :
    p'.content? q = some content := by
  rcases hw : p.store.write (q.locate p.base) content with ⟨store, error⟩
  simp only [write, hw] at h
  cases h
  unfold content? read
  rw [Store.read_write hread hw]
  rfl

theorem held_write_refused {p p' : Project} {q : ProjectPath} {content : String}
    {error : StoreError} (h : p.write q content = (p', some error)) :
    p'.base = p.base ∧ ∀ r, p'.held r = p.held r := by
  rcases hw : p.store.write (q.locate p.base) content with ⟨store, refusal⟩
  simp only [write, hw] at h
  cases h
  exact ⟨rfl, fun r => Store.held_write_refused hw _⟩

theorem held_remove {p p' : Project} {q : ProjectPath} (h : p.remove q = (p', none)) :
    p'.base = p.base ∧ ∀ r, p'.held r = if q = r then none else p.held r := by
  rcases hr : p.store.remove (q.locate p.base) with ⟨store, error⟩
  simp only [remove, hr] at h
  cases h
  refine ⟨rfl, fun r => ?_⟩
  unfold held
  rw [Store.held_remove hr]
  exact if_congr (samePlace_locate_iff _ _ _ _) rfl rfl

theorem held_remove_refused {p p' : Project} {q : ProjectPath} {error : StoreError}
    (h : p.remove q = (p', some error)) : p' = p := by
  rcases hr : p.store.remove (q.locate p.base) with ⟨store, refusal⟩
  simp only [remove, hr] at h
  cases h
  rw [Store.held_remove_refused hr]

/-! ### Projects in memory -/

/-- The project is kept in memory, where these accesses are denied. -/
def InMemory (closed : List (List Component × Access)) (p : Project) : Prop :=
  ∃ m : Memory, p.store = .memory m ∧ m.closed = closed

namespace InMemory

variable {closed : List (List Component × Access)} {p p' : Project}

theorem write (h : p.InMemory closed) (q : ProjectPath) (content : String) :
    (p.write q content).1.InMemory closed := by
  obtain ⟨m, hstore, hclosed⟩ := h
  unfold Project.write
  rw [hstore]
  simp only [Store.write]
  rcases hw : m.write (q.locate p.base) content with e | m'
  · exact ⟨m, rfl, hclosed⟩
  · exact ⟨m', rfl, (Memory.write_files hw).1.trans hclosed⟩

theorem remove (h : p.InMemory closed) (q : ProjectPath) : (p.remove q).1.InMemory closed := by
  obtain ⟨m, hstore, hclosed⟩ := h
  unfold Project.remove
  rw [hstore]
  simp only [Store.remove]
  rcases hr : m.remove (q.locate p.base) with e | m'
  · exact ⟨m, rfl, hclosed⟩
  · exact ⟨m', rfl, (Memory.remove_files hr).1.trans hclosed⟩

/-- Reading answers what is held, unless it is denied. -/
theorem content?_eq (h : p.InMemory closed) (q : ProjectPath) :
    (p.content? q).map Content.text =
      if p.store.Denies (q.locate p.base) .read then none else p.held q := by
  obtain ⟨m, hstore, -⟩ := h
  unfold content? read held
  rw [hstore]
  show ((if m.isClosed (q.locate p.base) .read then _ else _ :
    Except StoreError String).toOption).map Content.text =
      if m.isClosed (q.locate p.base) .read = true then none else _
  split
  · rfl
  · simp only [Memory.find?, Store.held]
    cases m.files.get? (Path.components (q.locate p.base)) <;> rfl

theorem denies_iff (h : p.InMemory closed) (h' : p'.InMemory closed) (path : String) (a : Access) :
    p'.store.Denies path a ↔ p.store.Denies path a := by
  obtain ⟨m, hstore, hclosed⟩ := h
  obtain ⟨m', hstore', hclosed'⟩ := h'
  have hsame : m'.closed = m.closed := hclosed'.trans hclosed.symm
  rw [hstore, hstore']
  show m'.isClosed path a = true ↔ m.isClosed path a = true
  unfold Memory.isClosed
  rw [hsame]

/-- A write to memory is refused only if it is denied. -/
theorem write_refused_iff (h : p.InMemory closed) (q : ProjectPath) (content : String) :
    (p.write q content).2 ≠ none ↔ p.store.Denies (q.locate p.base) .write := by
  obtain ⟨m, hstore, -⟩ := h
  unfold Project.write
  rw [hstore]
  simp only [Store.write, Memory.write, Store.Denies]
  split
  next hclosed => simp [hclosed, Store.attempt, Except.map]
  next hopen => simp [hopen, Store.attempt, Except.map]

end InMemory

/-! ### Projects in memory to which no access is denied -/

/-- The project is kept in memory and no access to it is denied. -/
def IsOpen (p : Project) : Prop := ∃ m : Memory, p.store = .memory m ∧ m.Open

/-- The project at `/p` with these texts in memory. -/
def ofTexts (files : List (String × String)) : Project where
  base := "/p"
  store := .memory
    { files := files.map fun (path, content) =>
        (Path.components ("/p/" ++ path), ⟨"/p/" ++ path, content⟩)
      closed := [] }

theorem isOpen_ofTexts (files : List (String × String)) : (ofTexts files).IsOpen := ⟨_, rfl, rfl⟩

namespace IsOpen

variable {p : Project}

theorem inMemory (h : p.IsOpen) : p.InMemory [] := h

theorem not_denies (h : p.IsOpen) (path : String) (a : Access) : ¬p.store.Denies path a := by
  obtain ⟨m, hm, hopen⟩ := h
  rw [hm]
  exact Bool.eq_false_iff.mp (hopen.isClosed path a)

/-- Reading answers just what is held. -/
theorem content?_eq (h : p.IsOpen) (q : ProjectPath) :
    (p.content? q).map Content.text = p.held q := by
  rw [h.inMemory.content?_eq, if_neg (h.not_denies _ _)]

/-- There is a file just where something is held. -/
theorem leadsToFile_eq (h : p.IsOpen) (cs : List Component) :
    p.store.leadsToFile cs = (p.store.held cs).isSome := by
  obtain ⟨m, hm, -⟩ := h
  rw [hm]
  unfold Store.leadsToFile Memory.leadsToFile Entries.has Store.held
  simp

/-- The store has a file where a path lies exactly when it can be read, the root included. -/
theorem store_isFile_eq (h : p.IsOpen) (q : ProjectPath) :
    p.store.isFile (q.locate p.base) = (p.content? q).isSome := by
  rw [← Option.isSome_map (f := Content.text), h.content?_eq]
  exact h.leadsToFile_eq _

/-- A path is a file exactly when it can be read; the root never counts as one. -/
theorem isFile_eq (h : p.IsOpen) (q : ProjectPath) :
    p.isFile q = (q.names ≠ [] && (p.content? q).isSome) := by
  unfold isFile
  rw [h.store_isFile_eq]

theorem content?_of_held {p p' : Project} (h : p.IsOpen) (h' : p'.IsOpen) {q r : ProjectPath}
    (heq : p'.held q = p.held r) : p'.content? q = p.content? r := by
  rw [← h.content?_eq, ← h'.content?_eq] at heq
  exact Option.map_injective (fun _ _ hc => Content.text.inj hc) heq

theorem samePlace_iff (h : p.IsOpen) (cs ds : List Component) :
    p.store.SamePlace cs ds ↔ cs = ds := by
  obtain ⟨m, hm, -⟩ := h
  rw [hm]
  exact Iff.rfl

end IsOpen

/-- The second project is the first with this at the path, and with nothing else changed
in the store, be it inside the project or not. -/
structure Sets (p : Project) (q : ProjectPath) (content : Option String) (p' : Project) :
    Prop where
  isOpen : p'.IsOpen
  base : p'.base = p.base
  content? : ∀ r, p'.content? r = if q = r then content else p.content? r
  frame : ∀ cs, Path.components (q.locate p.base) ≠ cs → p'.store.held cs = p.store.held cs

namespace IsOpen

variable {p : Project}

theorem sets_of_held {p' : Project} {q : ProjectPath} {content : Option String} (h : p.IsOpen)
    (h' : p'.IsOpen) (hbase : p'.base = p.base)
    (hheld : ∀ r, p'.held r = if q = r then content.map Content.text else p.held r)
    (hframe : ∀ cs, Path.components (q.locate p.base) ≠ cs → p'.store.held cs = p.store.held cs) :
    Sets p q content p' := by
  refine ⟨h', hbase, fun r => ?_, hframe⟩
  have hr := hheld r
  by_cases hqr : q = r
  · rw [if_pos hqr, ← h'.content?_eq] at hr
    rw [if_pos hqr]
    exact Option.map_injective (fun _ _ hc => Content.text.inj hc) hr
  · rw [if_neg hqr] at hr
    rw [if_neg hqr]
    exact h.content?_of_held h' hr

/-- Every write succeeds. -/
theorem write (h : p.IsOpen) (q : ProjectPath) (content : String) :
    ∃ p', p.write q content = (p', none) ∧ Sets p q (some content) p' := by
  obtain ⟨m, hm, hopen⟩ := h
  have hclosed := hopen.isClosed (q.locate p.base) .write
  rcases hw : p.store.write (q.locate p.base) content with ⟨store, error⟩
  have hdone : error = none ∧ ∃ n : Memory, store = .memory n ∧ n.Open := by
    rw [hm] at hw
    simp only [Store.write, Memory.write, hclosed, Store.attempt, Except.map] at hw
    cases hw
    exact ⟨rfl, _, rfl, hopen⟩
  obtain ⟨rfl, hstore⟩ := hdone
  have hwrite : p.write q content = ({ p with store }, none) := by
    unfold Project.write
    rw [hw]
  obtain ⟨hbase, hheld⟩ := held_write hwrite
  have hp : p.IsOpen := ⟨m, hm, hopen⟩
  refine ⟨_, hwrite, hp.sets_of_held hstore hbase hheld fun cs hcs => ?_⟩
  rw [Store.held_write hw, if_neg]
  rwa [hp.samePlace_iff]

/-- Every removal of a file that is there succeeds. -/
theorem remove (h : p.IsOpen) (q : ProjectPath) (hq : (p.content? q).isSome) :
    ∃ p', p.remove q = (p', none) ∧ Sets p q none p' := by
  have hheldq : (p.held q).isSome := by rwa [← h.content?_eq, Option.isSome_map]
  obtain ⟨m, hm, hopen⟩ := h
  have hclosed := hopen.isClosed (q.locate p.base) .remove
  have hfile : m.isFile (q.locate p.base) = true := by
    unfold held at hheldq
    rw [hm] at hheldq
    simpa [Store.held, Memory.isFile, Memory.leadsToFile, Entries.has] using hheldq
  rcases hr : p.store.remove (q.locate p.base) with ⟨store, error⟩
  have hdone : error = none ∧ ∃ n : Memory, store = .memory n ∧ n.Open := by
    rw [hm] at hr
    simp only [Store.remove, Memory.remove, hclosed, hfile, Store.attempt, Except.map] at hr
    cases hr
    exact ⟨rfl, _, rfl, hopen⟩
  obtain ⟨rfl, hstore⟩ := hdone
  have hremove : p.remove q = ({ p with store }, none) := by
    unfold Project.remove
    rw [hr]
  obtain ⟨hbase, hheld⟩ := held_remove hremove
  have hp : p.IsOpen := ⟨m, hm, hopen⟩
  refine ⟨_, hremove, hp.sets_of_held hstore hbase hheld fun cs hcs => ?_⟩
  rw [Store.held_remove hr, if_neg]
  rwa [hp.samePlace_iff]

end IsOpen

end Upkeep.Project
