/-
What a store holds.

`Store.held` looks at a file past everything that may refuse an access: a path that is
closed, and a way that cannot be walked.  Through it every access that changes something
has one equation.  A write puts its text at the place of its path, a removal leaves
nothing there, and either leaves all other places alone; one that is refused leaves every
place alone, also on a disk, where directories may have been made on the way.
-/
import Mathlib.Logic.Basic
import Upkeep.Store

namespace Upkeep

namespace Disk

/-- The place that components lead to from a place, if every directory on the way is
there. -/
def lands (p : Place) : List Component → Place
  | [] => p
  | .root :: cs => lands [] cs
  | .here :: cs => lands p cs
  | .up :: cs => lands p.dropLast cs
  | .name n :: cs => lands (p ++ [n]) cs

theorem lands_append (p : Place) (cs ds : List Component) :
    lands p (cs ++ ds) = lands (lands p cs) ds := by
  induction cs generalizing p with
  | nil => rfl
  | cons c cs ih => cases c <;> exact ih _

theorem lands_names (p : Place) (ns : List String) : lands p (ns.map .name) = p ++ ns := by
  induction ns generalizing p with
  | nil => simp [lands]
  | cons n ns ih => simp [lands, ih]

/-- A walk that arrives arrives where its components lead. -/
theorem walk_eq_lands {d : Disk} {cs : List Component} :
    ∀ {p q : Place}, d.walk p cs = .ok q → q = lands p cs := by
  induction cs with
  | nil =>
      intro p q h
      exact (Except.ok.inj h).symm
  | cons c cs ih =>
      intro p q h
      cases c with
      | root => exact ih h
      | here => exact ih h
      | up =>
          cases hs : d.standIn p with
          | error r => simp [walk, hs, bind, Except.bind] at h
          | ok u =>
              simp only [walk, hs, bind, Except.bind] at h
              exact ih h
      | name n =>
          cases hs : d.standIn p with
          | error r => simp [walk, hs, bind, Except.bind] at h
          | ok u =>
              simp only [walk, hs, bind, Except.bind] at h
              split at h
              · simp at h
              · exact ih h

theorem destination_eq_ok_iff {d : Disk} {cs : List Component} {q : Place} :
    d.destination cs = .ok q ↔
      ¬cs.any Component.hasNul ∧ ¬pathLimit < Path.byteSize cs ∧ d.walk d.current cs = .ok q := by
  unfold destination
  split
  next hnul => simp [hnul]
  next hnul =>
    split
    next hlong => simp [hlong]
    next hlong => simp [hnul, hlong]

theorem reach_eq_ok_iff {d : Disk} {cs : List Component} {q : Place} :
    d.reach cs = .ok q ↔ cs ≠ [] ∧ d.destination cs = .ok q := by
  unfold reach
  split
  next hnone => simp [hnone]
  next hsome => simp [hsome]

theorem destination_eq_lands {d : Disk} {cs : List Component} {q : Place}
    (h : d.destination cs = .ok q) : q = lands d.current cs :=
  walk_eq_lands (destination_eq_ok_iff.mp h).2.2

theorem reach_eq_lands {d : Disk} {cs : List Component} {q : Place} (h : d.reach cs = .ok q) :
    q = lands d.current cs :=
  destination_eq_lands (reach_eq_ok_iff.mp h).2

/-! ### Directories hold no files -/

/-- The disks have the same files and the same current directory. -/
def SameFiles (d e : Disk) : Prop := e.files = d.files ∧ e.current = d.current

theorem SameFiles.refl (d : Disk) : SameFiles d d := ⟨rfl, rfl⟩

theorem SameFiles.trans {d e f : Disk} (h : SameFiles d e) (k : SameFiles e f) : SameFiles d f :=
  ⟨k.1.trans h.1, k.2.trans h.2⟩

theorem makeDirectory_sameFiles {d e : Disk} {cs : List Component}
    (h : d.makeDirectory cs = .ok e) : SameFiles d e := by
  unfold makeDirectory at h
  cases hr : d.reach cs with
  | error r => simp [hr, bind, Except.bind] at h
  | ok p =>
      simp only [hr, bind, Except.bind] at h
      split at h
      · split at h
        · simp at h
        · cases h
          exact .refl d
      · simp at h

theorem makeDirectories_sameFiles (cs : List Component) :
    ∀ d : Disk, SameFiles d (d.makeDirectories cs).1 := by
  induction cs with
  | nil => exact .refl
  | cons c above ih =>
      intro d
      unfold makeDirectories
      simp only
      split
      next hmade => exact makeDirectory_sameFiles hmade
      next =>
        -- The directory above was missing: what was made there counts in any case.
        have habove := ih d
        split
        next heq => rwa [heq] at habove
        next heq =>
          rw [heq] at habove
          split
          next hmade => exact habove.trans (makeDirectory_sameFiles hmade)
          next => exact habove
      next => exact .refl d

/-! ### The accesses that change something -/

/-- A walk looks at directories alone. -/
theorem walk_sameDirectories {d e : Disk} (h : e.directories = d.directories)
    {cs : List Component} : ∀ {p q : Place}, d.walk p cs = .ok q → e.walk p cs = .ok q := by
  have hstand : ∀ {p u}, d.standIn p = .ok u → e.standIn p = .ok u := by
    intro p u hp
    unfold standIn isDirectoryAt at hp ⊢
    rw [h]
    split at hp
    next hdirectory => rw [if_pos hdirectory]
    next => split at hp <;> simp at hp
  induction cs with
  | nil => exact fun hwalk => hwalk
  | cons c cs ih =>
      intro p q hwalk
      cases c with
      | root => exact ih hwalk
      | here => exact ih hwalk
      | up =>
          cases hs : d.standIn p with
          | error r => simp [walk, hs, bind, Except.bind] at hwalk
          | ok u =>
              simp only [walk, hs, hstand hs, bind, Except.bind] at hwalk ⊢
              exact ih hwalk
      | name n =>
          cases hs : d.standIn p with
          | error r => simp [walk, hs, bind, Except.bind] at hwalk
          | ok u =>
              simp only [walk, hs, hstand hs, bind, Except.bind] at hwalk ⊢
              split at hwalk
              · simp at hwalk
              next hlength =>
                rw [if_neg hlength]
                exact ih hwalk

/-- What was stored is read, by the way on which it was stored. -/
theorem read_put {d e : Disk} {path content : String} (h : d.put path content = .ok e) :
    e.read path = .ok content := by
  unfold put at h
  split at h
  · simp at h
  next p hp =>
    split at h
    · simp at h
    · cases h
      have hsame : ∀ files, ({ d with files } : Disk).directories = d.directories := fun _ => rfl
      have hplace : placeOf { d with files := d.files.put p (.text content) } path = .ok p := by
        unfold placeOf at hp ⊢
        obtain ⟨hsome, hdestination⟩ := reach_eq_ok_iff.mp hp
        obtain ⟨hnul, hlength, hwalk⟩ := destination_eq_ok_iff.mp hdestination
        refine reach_eq_ok_iff.mpr ⟨hsome, destination_eq_ok_iff.mpr ⟨hnul, hlength, ?_⟩⟩
        exact walk_sameDirectories (hsame _) hwalk
      unfold read
      rw [hplace]
      simp

theorem read_write {d e : Disk} {path content : String} (h : d.write path content = (e, none)) :
    e.read path = .ok content := by
  unfold write at h
  split at h
  · simp at h
  · split at h
    next hput =>
      cases h
      exact read_put hput
    next => simp at h

theorem put_files {d e : Disk} {path content : String} (h : d.put path content = .ok e) :
    e.current = d.current ∧
      e.files = d.files.put (lands d.current (Path.components path)) (.text content) := by
  unfold put at h
  split at h
  · simp at h
  next p hp =>
    split at h
    · simp at h
    · cases h
      exact ⟨rfl, by rw [← reach_eq_lands hp]⟩

theorem write_files {d e : Disk} {path content : String} (h : d.write path content = (e, none)) :
    e.current = d.current ∧
      e.files = d.files.put (lands d.current (Path.components path)) (.text content) := by
  unfold write at h
  have hsame := makeDirectories_sameFiles (Path.components path).dropLast.reverse d
  split at h
  · simp at h
  next m hm =>
    rw [hm] at hsame
    obtain ⟨hfiles, hcurrent⟩ := hsame
    split at h
    next hput =>
      cases h
      obtain ⟨h1, h2⟩ := put_files hput
      rw [hcurrent] at h1 h2
      rw [hfiles] at h2
      exact ⟨h1, h2⟩
    next => simp at h

theorem write_refused {d e : Disk} {path content : String} {error : StoreError}
    (h : d.write path content = (e, some error)) : SameFiles d e := by
  unfold write at h
  have hsame := makeDirectories_sameFiles (Path.components path).dropLast.reverse d
  split at h
  next hm =>
    cases h
    rwa [hm] at hsame
  next hm =>
    rw [hm] at hsame
    split at h
    · simp at h
    · cases h
      exact hsame

theorem remove_files {d e : Disk} {path : String} (h : d.remove path = .ok e) :
    e.current = d.current ∧ e.files = d.files.erase (lands d.current (Path.components path)) := by
  unfold remove at h
  split at h
  · simp at h
  next p hp =>
    split at h
    · cases h
      exact ⟨rfl, by rw [← reach_eq_lands hp]⟩
    · split at h <;> simp at h

end Disk

namespace Memory

theorem Open.isClosed {m : Memory} (h : m.Open) (path : String) (a : Access) :
    m.isClosed path a = false := by
  unfold Memory.isClosed
  rw [show m.closed = [] from h]
  rfl

theorem write_files {m n : Memory} {path content : String} (h : m.write path content = .ok n) :
    n.closed = m.closed ∧ ∃ spelling : String,
      n.files = m.files.put (Path.components path) ⟨spelling, content⟩ := by
  unfold write at h
  split at h
  · simp at h
  · cases h
    exact ⟨rfl, _, rfl⟩

theorem remove_files {m n : Memory} {path : String} (h : m.remove path = .ok n) :
    n.closed = m.closed ∧ n.files = m.files.erase (Path.components path) := by
  unfold remove at h
  split at h
  · simp at h
  · split at h
    · cases h
      exact ⟨rfl, rfl⟩
    · simp at h

end Memory

namespace Store

/-- What stands where the components lead, whatever refuses an access to it. -/
def held : Store → List Component → Option Content
  | memory m, cs => (m.files.get? cs).map fun f => .text f.content
  | disk d, cs => d.files.get? (Disk.lands d.current cs)

/-- The access to the path is denied, whatever is there. -/
def Denies : Store → String → Access → Prop
  | memory m, path, a => m.isClosed path a = true
  | disk _, _, _ => False

instance : ∀ (s : Store) (path : String) (a : Access), Decidable (s.Denies path a)
  | memory m, path, a => inferInstanceAs (Decidable (m.isClosed path a = true))
  | disk _, _, _ => inferInstanceAs (Decidable False)

/-- Both paths lead to one place of the store. -/
def SamePlace : Store → List Component → List Component → Prop
  | memory _, cs, ds => cs = ds
  | disk d, cs, ds => Disk.lands d.current cs = Disk.lands d.current ds

instance : ∀ (s : Store) (cs ds : List Component), Decidable (s.SamePlace cs ds)
  | memory _, cs, ds => inferInstanceAs (Decidable (cs = ds))
  | disk d, cs, ds =>
    inferInstanceAs (Decidable (Disk.lands d.current cs = Disk.lands d.current ds))

theorem attempt_ok {s t : Store} {e : Except StoreError Store} (h : s.attempt e = (t, none)) :
    e = .ok t := by
  cases e with
  | ok u =>
      cases h
      rfl
  | error e => simp [attempt] at h

theorem attempt_refused {s t : Store} {e : Except StoreError Store} {error : StoreError}
    (h : s.attempt e = (t, some error)) : t = s := by
  cases e with
  | ok u => simp [attempt] at h
  | error e =>
      cases h
      rfl

/-- What is read is held. -/
theorem held_of_read {s : Store} {path text : String} (h : s.read path = .ok text) :
    s.held (Path.components path) = some (.text text) := by
  cases s with
  | memory m =>
      have hread : m.read path = .ok text := h
      unfold Memory.read Memory.find? at hread
      unfold held
      split at hread
      · cases hread
      · split at hread
        next f hfile =>
          cases hread
          simp only [hfile, Option.map_some]
        next => cases hread
  | disk d =>
      have hread : d.read path = .ok text := h
      unfold Disk.read Disk.placeOf at hread
      unfold held
      split at hread
      · cases hread
      next place hreach =>
        split at hread
        next s hfile =>
          cases hread
          rwa [Disk.reach_eq_lands hreach] at hfile
        · cases hread
        · split at hread <;> cases hread

/-- A write puts the text at its place and leaves the others alone. -/
theorem held_write {s t : Store} {path content : String} (h : s.write path content = (t, none))
    (cs : List Component) :
    t.held cs = if s.SamePlace (Path.components path) cs then some (.text content)
      else s.held cs := by
  cases s with
  | memory m =>
      have hm : (m.write path content).map memory = .ok t := attempt_ok h
      cases hw : m.write path content with
      | error e => simp [hw, Except.map] at hm
      | ok n =>
          rw [hw] at hm
          cases hm
          obtain ⟨-, spelling, hfiles⟩ := Memory.write_files hw
          simp only [held, hfiles, Entries.get?_put, apply_ite (Option.map _)]
          exact if_congr Iff.rfl rfl rfl
  | disk d =>
      rcases hw : d.write path content with ⟨e, refusal⟩
      simp only [write, hw] at h
      cases h
      obtain ⟨hcurrent, hfiles⟩ := Disk.write_files hw
      simp only [held, hcurrent, hfiles, Entries.get?_put]
      exact if_congr Iff.rfl rfl rfl

/-- What was written is read, unless reading it is denied. -/
theorem read_write {s t : Store} {path content : String} (hread : ¬s.Denies path .read)
    (h : s.write path content = (t, none)) : t.read path = .ok content := by
  cases s with
  | memory m =>
      have hm : (m.write path content).map memory = .ok t := attempt_ok h
      cases hw : m.write path content with
      | error e => simp [hw, Except.map] at hm
      | ok n =>
          rw [hw] at hm
          cases hm
          obtain ⟨hclosed, spelling, hfiles⟩ := Memory.write_files hw
          have hopen : ¬n.isClosed path .read = true := by
            unfold Memory.isClosed
            rw [hclosed]
            exact hread
          show n.read path = .ok content
          unfold Memory.read Memory.find?
          rw [if_neg hopen, hfiles, Entries.get?_put_self]
  | disk d =>
      rcases hw : d.write path content with ⟨e, refusal⟩
      simp only [write, hw] at h
      cases h
      exact Disk.read_write hw

/-- What can be read is there. -/
theorem isFile_of_read {s : Store} {path content : String} (h : s.read path = .ok content) :
    s.isFile path = true := by
  cases s with
  | memory m =>
      have hread : m.read path = .ok content := h
      show (m.find? path).isSome = true
      unfold Memory.read at hread
      split at hread
      · cases hread
      · split at hread
        next f hfind => rw [hfind]; rfl
        next => cases hread
  | disk d =>
      have hread : d.read path = .ok content := h
      show d.leadsToFile (Path.components path) = true
      unfold Disk.read Disk.placeOf at hread
      unfold Disk.leadsToFile
      split at hread
      · cases hread
      next p hreach =>
        rw [hreach]
        show (d.files.get? p).isSome = true
        split at hread
        next hfile => rw [hfile]; rfl
        · cases hread
        · split at hread <;> cases hread

theorem held_write_refused {s t : Store} {path content : String} {error : StoreError}
    (h : s.write path content = (t, some error)) (cs : List Component) : t.held cs = s.held cs := by
  cases s with
  | memory m => rw [attempt_refused h]
  | disk d =>
      rcases hw : d.write path content with ⟨e, refusal⟩
      simp only [write, hw] at h
      cases h
      obtain ⟨hfiles, hcurrent⟩ := Disk.write_refused hw
      unfold held
      simp only [hfiles, hcurrent]

/-- A removal leaves nothing at its place and leaves the others alone. -/
theorem held_remove {s t : Store} {path : String} (h : s.remove path = (t, none))
    (cs : List Component) :
    t.held cs = if s.SamePlace (Path.components path) cs then none else s.held cs := by
  cases s with
  | memory m =>
      have hm : (m.remove path).map memory = .ok t := attempt_ok h
      cases hr : m.remove path with
      | error e => simp [hr, Except.map] at hm
      | ok n =>
          rw [hr] at hm
          cases hm
          obtain ⟨-, hfiles⟩ := Memory.remove_files hr
          simp only [held, hfiles, Entries.get?_erase, apply_ite (Option.map _)]
          exact if_congr Iff.rfl rfl rfl
  | disk d =>
      have hd : (d.remove path).map disk = .ok t := attempt_ok h
      cases hr : d.remove path with
      | error e => simp [hr, Except.map] at hd
      | ok n =>
          rw [hr] at hd
          cases hd
          obtain ⟨hcurrent, hfiles⟩ := Disk.remove_files hr
          simp only [held, hcurrent, hfiles, Entries.get?_erase]
          exact if_congr Iff.rfl rfl rfl

theorem held_remove_refused {s t : Store} {path : String} {error : StoreError}
    (h : s.remove path = (t, some error)) : t = s := by
  cases s with
  | memory m => exact attempt_refused h
  | disk d => exact attempt_refused h

end Store

end Upkeep
