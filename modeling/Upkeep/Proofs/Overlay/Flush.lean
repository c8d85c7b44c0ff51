/-
Carrying an overlay out.

What carrying out needs is that every record which is not an addition stands on a file:
removing a file that is not there would be refused.  `Grounded` says so, every operation
keeps it, and from it the loop over the records never stops.  As no path has two records,
each path ends up with what its own record says.
-/
import Mathlib.Data.List.Basic
import Upkeep.Overlay.Flush
import Upkeep.Proofs.Overlay.Operation

namespace Upkeep

namespace Overlay

/-- No path has two records, and those that are not additions are for files that the
project has. -/
structure Grounded (o : Overlay) : Prop where
  distinct : o.records.Distinct
  isSome : ∀ q r, o.record? q = some r → r.kind ≠ .add → (o.project.content? q).isSome = true

namespace Grounded

variable {o o' : Overlay} {p q : ProjectPath}

theorem empty (p : Project) : Grounded (.empty p) :=
  ⟨List.nodup_nil, fun q r h => by simp [record?, Overlay.empty] at h⟩

theorem put (G : Grounded o) {r : Pending}
    (hr : r.kind ≠ .add → (o.project.content? p).isSome = true) : Grounded (o.put p r) := by
  refine ⟨G.distinct.put p r, fun q s hs hkind => ?_⟩
  rcases record?_of_put hs with ⟨rfl, rfl⟩ | hs
  · exact hr hkind
  · exact G.isSome q s hs hkind

theorem forget (G : Grounded o) : Grounded (o.forget p) :=
  ⟨G.distinct.erase p, fun q s hs => G.isSome q s (record?_of_forget hs)⟩

theorem addAt (G : Grounded o) {content : String} (h : o.addAt p content = .ok o') :
    Grounded o' := by
  obtain ⟨-, rfl⟩ := addAt_ok h
  exact G.put fun hkind => absurd rfl hkind

theorem updateAt (G : Grounded o) {content : String} (h : o.updateAt p content = .ok o') :
    Grounded o' := by
  obtain ⟨current, hcurrent, ⟨-, rfl⟩ | ⟨-, rfl⟩ | ⟨hrecord, -, rfl⟩⟩ := updateAt_ok h
  · exact G
  · exact G.put fun hkind => absurd rfl hkind
  · refine G.put fun _ => ?_
    rcases hrecord with hnone | ⟨d, hd⟩
    · rw [contentAt?_of_none hnone] at hcurrent
      rw [hcurrent]
      rfl
    · exact G.isSome p _ hd (by simp [Pending.kind])

theorem deleteAt (G : Grounded o) (hopen : o.project.IsOpen) (h : o.deleteAt p = .ok o') :
    Grounded o' := by
  obtain ⟨-, rfl⟩ | ⟨hrecord, rfl⟩ := deleteAt_ok h
  · exact G.forget
  · refine G.put fun _ => ?_
    rcases hrecord with ⟨d, hd⟩ | ⟨-, hfile⟩
    · exact G.isSome p _ hd (by simp [Pending.kind])
    · rw [hopen.isFile_eq] at hfile
      exact (Bool.and_eq_true_iff.mp hfile).2

theorem renameAt (G : Grounded o) (hopen : o.project.IsOpen) (h : o.renameAt p q = .ok o') :
    Grounded o' := by
  obtain ⟨content, o₁, -, -, hdelete, hadd⟩ := renameAt_ok h
  exact (G.deleteAt hopen hdelete).addAt hadd

end Grounded

theorem Grounded.after {o : Overlay} (G : Grounded o) (hopen : o.project.IsOpen)
    (op : Operation) : Grounded (o.after op) := by
  cases h : o.perform op with
  | error e => rwa [after_of_error h]
  | ok o' =>
      rw [after_of_ok h]
      cases op with
      | add s content => exact G.addAt h
      | update s content => exact G.updateAt h
      | delete s => exact G.deleteAt hopen h
      | rename s t => exact G.renameAt hopen h

theorem Grounded.run {o : Overlay} (G : Grounded o) (hopen : o.project.IsOpen)
    (ops : List Operation) : Grounded (o.run ops) := by
  induction ops generalizing o with
  | nil => exact G
  | cons op ops ih => exact ih (G.after hopen op) (by rwa [after_project])

theorem Reaches.grounded {p : Project} {o : Overlay} (h : Reaches (.empty p) o)
    (hopen : p.IsOpen) : Grounded o := by
  obtain ⟨ops, rfl⟩ := h
  exact (Grounded.empty p).run hopen ops

end Overlay

/-! ### The loop over the records -/

namespace Project

/-- One record that stands on a file, or is an addition, is carried out. -/
theorem apply_ok {p : Project} (hopen : p.IsOpen) {q : ProjectPath} {r : Pending}
    (hr : r.kind ≠ .add → (p.content? q).isSome = true) :
    ∃ p', p.apply q r = (p', none) ∧ Sets p q r.content? p' := by
  cases r with
  | add content => exact hopen.write q content
  | update content => exact hopen.write q content
  | delete => exact hopen.remove q (hr (by simp [Pending.kind]))

/-- The second project is the first with all the records carried out, and nothing else
changed in the store. -/
structure SetsAll (p : Project) (records : ChangeSet) (p' : Project) : Prop where
  isOpen : p'.IsOpen
  base : p'.base = p.base
  content? : ∀ q, p'.content? q =
    match records.get? q with
    | some r => r.content?
    | none => p.content? q
  frame : ∀ cs, (∀ q ∈ records.keys, Path.components (q.locate p.base) ≠ cs) →
    p'.store.held cs = p.store.held cs

/-- **Records that stand on files are all carried out, each for its own path.** -/
theorem applyAll_ok {p : Project} (hopen : p.IsOpen) {records : ChangeSet}
    (hdistinct : records.Distinct)
    (hrecords : ∀ q r, records.get? q = some r → r.kind ≠ .add →
      (p.content? q).isSome = true) :
    ∃ p', p.applyAll records = (p', none) ∧ SetsAll p records p' := by
  induction records generalizing p with
  | nil => exact ⟨p, rfl, hopen, rfl, fun _ => rfl, fun _ _ => rfl⟩
  | cons record records ih =>
      obtain ⟨q, r⟩ := record
      obtain ⟨hq, hrest⟩ : q ∉ Entries.keys records ∧ Entries.Distinct records :=
        List.nodup_cons.mp hdistinct
      have hnone : Entries.get? records q = none := Entries.get?_eq_none_iff.mpr hq
      obtain ⟨p₁, happly, S₁⟩ := apply_ok hopen (hrecords q r (by simp [Entries.get?]))
      -- The records that follow are for other paths, where nothing has changed.
      have hrecords₁ : ∀ q' r', Entries.get? records q' = some r' → r'.kind ≠ .add →
          (p₁.content? q').isSome = true := by
        intro q' r' h hkind
        have hne : q ≠ q' := by
          rintro rfl
          rw [hnone] at h
          simp at h
        rw [S₁.content?, if_neg hne]
        exact hrecords q' r' (by simp [Entries.get?, hne, h]) hkind
      obtain ⟨p', happlyAll, S'⟩ := ih S₁.isOpen hrest hrecords₁
      refine ⟨p', ?_, S'.isOpen, S'.base.trans S₁.base, fun q' => ?_, fun cs hcs => ?_⟩
      · unfold applyAll
        rw [happly]
        exact happlyAll
      · rw [S'.content?, S₁.content?]
        by_cases hne : q = q'
        · subst hne
          simp [hnone, Entries.get?]
        · simp [Entries.get?, hne]
      · rw [S'.frame cs fun q' hq' => ?_, S₁.frame cs (hcs q (by simp [Entries.keys]))]
        rw [S₁.base]
        exact hcs q' (List.mem_cons_of_mem _ hq')

end Project

namespace Overlay

/-- After any calls nothing is refused; the project then has the files that the overlay
showed, and the store keeps what stands at places that no record names. -/
theorem flush_run {p : Project} (hopen : p.IsOpen) (ops : List Operation) :
    ∃ p', ((empty p).run ops).flush = (p', none) ∧ p'.IsOpen ∧ p'.base = p.base ∧
      (∀ q, p'.content? q = ((empty p).run ops).contentAt? q) ∧
      (∀ q, q.names ≠ [] → p'.isFile q = ((empty p).run ops).hasAt q) ∧
      ∀ cs, (∀ q ∈ ((empty p).run ops).records.keys, Path.components (q.locate p.base) ≠ cs) →
        p'.store.held cs = p.store.held cs := by
  have hproject : ((empty p).run ops).project = p := run_project (empty p) ops
  have G : Grounded ((empty p).run ops) := (Grounded.empty p).run hopen ops
  have hrecords := G.isSome
  rw [hproject] at hrecords
  obtain ⟨p', happly, S⟩ := Project.applyAll_ok hopen G.distinct hrecords
  have hcontent : ∀ q, p'.content? q = ((empty p).run ops).contentAt? q := by
    intro q
    rw [S.content?]
    unfold contentAt?
    rw [hproject]
    rfl
  refine ⟨p', ?_, S.isOpen, S.base, hcontent, fun q hq => ?_, S.frame⟩
  · unfold flush
    rwa [hproject]
  · have hpending : ((empty p).run ops).hasAt q = _ := hasAt_eq (by rwa [hproject]) hq
    rw [S.isOpen.isFile_eq, decide_eq_true hq, Bool.true_and, hpending, hcontent]

theorem resolve_run (p : Project) (ops : List Operation) (s : String) :
    ((empty p).run ops).resolve s = p.resolve s := by
  unfold resolve
  rw [run_project]
  rfl

theorem resolve_empty {p p' : Project} (hbase : p'.base = p.base) (s : String) :
    (empty p').resolve s = p.resolve s := by
  unfold resolve Project.resolve
  rw [← hbase]
  rfl

/-- **Carrying out what is pending makes the project what the overlay showed.**  Whatever
calls have been made, refused ones and calls on the root of the project included, nothing
is refused; every other spelling then answers in the project as it did in the overlay, and
the store keeps what stands at places that no record names. -/
theorem flush_shows_overlay (p : Project) (hopen : p.IsOpen) (ops : List Operation) :
    ∃ p', ((empty p).run ops).flush = (p', none) ∧ p'.IsOpen ∧ p'.base = p.base ∧
      (∀ s, p.resolve s ≠ .root →
        (empty p').content? s = ((empty p).run ops).content? s ∧
          (empty p').has s = ((empty p).run ops).has s) ∧
      ∀ cs, (∀ q ∈ ((empty p).run ops).records.keys, Path.components (q.locate p.base) ≠ cs) →
        p'.store.held cs = p.store.held cs := by
  obtain ⟨p', hflush, hopen', hbase, hcontent, hhas, hframe⟩ := flush_run hopen ops
  refine ⟨p', hflush, hopen', hbase, fun s hs => ?_, hframe⟩
  unfold content? has
  rw [resolve_run, resolve_empty hbase]
  exact ⟨hcontent (p.resolve s), hhas (p.resolve s) fun h => hs (ProjectPath.ext_names h)⟩

/-- A file that is deleted and added again, one that is renamed, and a call that is
refused, all carried out. -/
theorem flush_shows_renamed :
    let p : Project := .ofTexts [("a", "x"), ("b", "y")]
    let ops : List Operation :=
      [.delete "a", .add "a" "z", .rename "b" "c/d", .delete "b", .add "c/d" "w"]
    p.IsOpen ∧ ∃ p', ((empty p).run ops).flush = (p', none) ∧
      (empty p').content? "c/d" = some "y" ∧ (empty p').has "b" = false := by
  intro p ops
  have hopen : p.IsOpen := Project.isOpen_ofTexts _
  obtain ⟨p', hflush, -, -, hshown, -⟩ := flush_shows_overlay p hopen ops
  refine ⟨hopen, p', hflush, ?_, ?_⟩
  · rw [(hshown "c/d" (by decide +kernel)).1]
    decide +kernel
  · rw [(hshown "b" (by decide +kernel)).2]
    decide +kernel

end Overlay

end Upkeep
