/-
The records of an overlay, and their order.

A call changes the list of records in three ways only: it replaces a record where it stands,
it drops one, or it puts one for a path without a record at the end.  `keys_after` says so in
one equation for all calls.  A renaming is the only one that can put two records, that of its
source before that of its target.  Over a run it follows that the records stand in the order
in which their paths last came to be recorded.

What a record may be is said by `Sound`: its path is written in one way only, it has a content
unless it is a deletion, and a file that is to be replaced or deleted is one that the store
has.
-/
import Mathlib.Data.List.Dedup
import Mathlib.Data.List.Induction
import Upkeep.Proofs.Overlay.Flush
import Upkeep.Proofs.Overlay.InPlace

namespace Upkeep

namespace Overlay

variable {o o₁ o' : Overlay} {p q : ProjectPath}

/-! ### One call -/

theorem mem_keys : q ∈ o.records.keys ↔ (o.record? q).isSome = true := Entries.mem_keys_iff

/-- The second overlay has the records of the first that it still has in the order of before,
and then those of the given paths that had none. -/
def Appends (o o' : Overlay) (paths : List ProjectPath) : Prop :=
  o'.records.keys = o.records.keys.filter (fun q => (o'.record? q).isSome) ++
    paths.filter fun q => (o.record? q).isNone ∧ (o'.record? q).isSome

theorem isSome_put (r : Pending) (h : (o.record? q).isSome = true) :
    ((o.put p r).record? q).isSome = true := by
  rw [record?_put]
  split
  · rfl
  · exact h

namespace Appends

theorem filter_keys (h : ∀ q, (o.record? q).isSome = true → (o'.record? q).isSome = true) :
    o.records.keys.filter (fun q => (o'.record? q).isSome) = o.records.keys :=
  List.filter_eq_self.mpr fun q hq => h q (mem_keys.mp hq)

theorem refl (o : Overlay) (paths : List ProjectPath) : Appends o o paths := by
  have hnone : paths.filter (fun q => (o.record? q).isNone ∧ (o.record? q).isSome) = [] := by
    refine List.filter_eq_nil_iff.mpr fun q _ => ?_
    cases o.record? q <;> simp
  unfold Appends
  rw [hnone, List.append_nil]
  exact (filter_keys fun _ h => h).symm

theorem put (o : Overlay) (p : ProjectPath) (r : Pending) : Appends o (o.put p r) [p] := by
  unfold Appends
  rw [filter_keys fun _ => isSome_put r]
  by_cases hp : (o.record? p).isSome = true
  · have hkeys : (o.put p r).records.keys = o.records.keys :=
      Entries.keys_put_of_mem r (mem_keys.mpr hp)
    rw [hkeys]
    simp [Option.isSome_iff_ne_none.mp hp]
  · have hkeys : (o.put p r).records.keys = o.records.keys ++ [p] :=
      Entries.keys_put_of_notMem r fun hmem => hp (mem_keys.mp hmem)
    rw [hkeys]
    simp [record?_put, Option.not_isSome_iff_eq_none.mp hp]

theorem forget (o : Overlay) (p : ProjectPath) : Appends o (o.forget p) [p] := by
  unfold Appends
  have hkeys : (o.forget p).records.keys = o.records.keys.filter (· ≠ p) :=
    Entries.keys_erase o.records p
  have hnone :
      [p].filter (fun q => (o.record? q).isNone ∧ ((o.forget p).record? q).isSome) = [] := by
    simp [record?_forget]
  rw [hkeys, hnone, List.append_nil]
  refine List.filter_congr fun q hq => ?_
  have hq := mem_keys.mp hq
  rw [record?_forget]
  by_cases hpq : p = q
  · simp [hpq]
  · simp [hpq, Ne.symm hpq, hq]

/-- A record for one more path, which the change before has left alone. -/
theorem put_other (h : Appends o o₁ [p]) (hq : o₁.record? q = o.record? q) (hpq : p ≠ q)
    (r : Pending) : Appends o (o₁.put q r) [p, q] := by
  have hput := put o₁ q r
  unfold Appends at h hput ⊢
  rw [filter_keys fun _ => isSome_put r] at hput
  have hp : (o₁.put q r).record? p = o₁.record? p := by rw [record?_put, if_neg (Ne.symm hpq)]
  have hkept : o.records.keys.filter (fun x => (o₁.record? x).isSome) =
      o.records.keys.filter fun x => ((o₁.put q r).record? x).isSome := by
    refine List.filter_congr fun x hx => ?_
    rw [record?_put]
    split
    next hqx => rw [← hqx, hq, hqx, mem_keys.mp hx]; rfl
    next => rfl
  have hsplit : [p, q] = [p] ++ [q] := rfl
  rw [hput, h, hkept, List.append_assoc, hsplit, List.filter_append]
  simp only [List.filter_cons, List.filter_nil, hp, hq]

end Appends

/-- The paths that a call gives a record and that had none, in the order in which the call
names them. -/
def recorded (o : Overlay) (op : Operation) : List ProjectPath :=
  (op.paths o.project.base).filter fun q => (o.record? q).isNone ∧ ((o.after op).record? q).isSome

/-- **A call keeps the order of the records.**  Those that it changes stay where they are,
those that it drops leave the others in place, and new ones come last. -/
theorem keys_after (o : Overlay) (op : Operation) :
    (o.after op).records.keys =
      o.records.keys.filter (fun q => ((o.after op).record? q).isSome) ++ o.recorded op := by
  show Appends o (o.after op) (op.paths o.project.base)
  rcases h : o.perform op with e | o'
  · rw [after_of_error h]
    exact .refl o _
  rw [after_of_ok h]
  cases op with
  | add s content =>
      obtain ⟨-, rfl⟩ := addAt_ok h
      exact .put o _ _
  | update s content =>
      obtain ⟨current, -, ⟨-, rfl⟩ | ⟨-, rfl⟩ | ⟨-, -, rfl⟩⟩ := updateAt_ok h
      · exact .refl _ _
      · exact .put o _ _
      · exact .put o _ _
  | delete s =>
      obtain ⟨-, rfl⟩ | ⟨-, rfl⟩ := deleteAt_ok h
      · exact .forget o _
      · exact .put o _ _
  | rename s t =>
      obtain ⟨content, o₁, hcontent, habsent, hdelete, hadd⟩ := renameAt_ok h
      have hne : o.resolve s ≠ o.resolve t := ne_of_deleteAt hcontent habsent hdelete
      have hsource : Appends o o₁ [o.resolve s] := by
        obtain ⟨-, rfl⟩ | ⟨-, rfl⟩ := deleteAt_ok hdelete
        · exact .forget o _
        · exact .put o _ _
      obtain ⟨-, rfl⟩ := addAt_ok hadd
      exact hsource.put_other (record?_deleteAt hdelete hne) hne _

theorem isNone_of_mem_recorded {op : Operation} (h : q ∈ o.recorded op) :
    (o.record? q).isNone = true :=
  (of_decide_eq_true (List.mem_filter.mp h).2).1

theorem isSome_of_mem_recorded {op : Operation} (h : q ∈ o.recorded op) :
    ((o.after op).record? q).isSome = true :=
  (of_decide_eq_true (List.mem_filter.mp h).2).2

/-- What has a record after a call had one before it, unless the call has given it one. -/
theorem isSome_before_iff {op : Operation} (h : ((o.after op).record? q).isSome = true) :
    (o.record? q).isSome = true ↔ q ∉ o.recorded op := by
  constructor
  · intro hbefore hrecorded
    rw [Option.isNone_iff_eq_none.mp (isNone_of_mem_recorded hrecorded)] at hbefore
    exact Bool.noConfusion hbefore
  · intro hrecorded
    have hmem := mem_keys.mpr h
    rw [keys_after, List.mem_append, List.mem_filter] at hmem
    rcases hmem with ⟨hbefore, -⟩ | hmem
    · exact mem_keys.mp hbefore
    · exact absurd hmem hrecorded

/-- No call gives a path two records. -/
theorem nodup_recorded {op : Operation} (h : (o.after op).records.Distinct) :
    (o.recorded op).Nodup := by
  unfold Entries.Distinct at h
  rw [keys_after] at h
  exact (List.nodup_append.mp h).2.1

/-! ### A run -/

/-- The paths that calls in turn give a record while they have none, as often as that
happens, oldest first. -/
def arrivals : Overlay → List Operation → List ProjectPath
  | _, [] => []
  | o, op :: ops => o.recorded op ++ arrivals (o.after op) ops

theorem arrivals_append (o : Overlay) (ops ops' : List Operation) :
    o.arrivals (ops ++ ops') = o.arrivals ops ++ (o.run ops).arrivals ops' := by
  induction ops generalizing o with
  | nil => rfl
  | cons op ops ih =>
      show o.recorded op ++ (o.after op).arrivals (ops ++ ops') = _
      rw [ih, ← List.append_assoc]
      rfl

/-- Of values that come again in a list only the last counts; new ones at its end take the
place of those before. -/
theorem dedup_append_nodup {α : Type _} [DecidableEq α] (xs : List α) {news : List α}
    (hnews : news.Nodup) : (xs ++ news).dedup = xs.dedup.filter (· ∉ news) ++ news := by
  induction xs with
  | nil => exact hnews.dedup
  | cons x xs ih =>
      rw [List.cons_append]
      by_cases hxs : x ∈ xs
      · rw [List.dedup_cons_of_mem hxs, List.dedup_cons_of_mem (List.mem_append_left news hxs), ih]
      rw [List.dedup_cons_of_notMem hxs]
      by_cases hx : x ∈ news
      · rw [List.dedup_cons_of_mem (List.mem_append_right xs hx), ih]
        simp [hx]
      · rw [List.dedup_cons_of_notMem (by simp [hxs, hx]), ih]
        simp [hx]

/-- **Records stand in the order in which their paths last came to be recorded.** -/
theorem keys_run {p : Project} (hopen : p.IsOpen) (ops : List Operation) :
    ((empty p).run ops).records.keys =
      ((empty p).arrivals ops).dedup.filter fun q => (((empty p).run ops).record? q).isSome := by
  induction ops using List.reverseRecOn with
  | nil => rfl
  | append_singleton ops op ih =>
      have hrun : (empty p).run (ops ++ [op]) = ((empty p).run ops).after op :=
        run_append _ ops [op]
      have harrivals : (empty p).arrivals (ops ++ [op]) =
          (empty p).arrivals ops ++ ((empty p).run ops).recorded op := by
        rw [arrivals_append]
        simp [arrivals]
      have hdistinct : (((empty p).run ops).after op).records.Distinct :=
        (((Grounded.empty p).run hopen ops).after (by rwa [run_project]) op).distinct
      rw [hrun, harrivals]
      generalize (empty p).run ops = o at *
      have hnew : (o.recorded op).filter (fun q => ((o.after op).record? q).isSome) =
          o.recorded op := List.filter_eq_self.mpr fun q hq => isSome_of_mem_recorded hq
      rw [dedup_append_nodup _ (nodup_recorded hdistinct), List.filter_append, hnew, keys_after, ih,
        List.filter_filter, List.filter_filter]
      congr 1
      refine List.filter_congr fun q _ => ?_
      by_cases hafter : ((o.after op).record? q).isSome = true
      · rw [hafter, Bool.true_and, Bool.true_and, Bool.eq_iff_iff, decide_eq_true_eq]
        exact isSome_before_iff hafter
      · rw [Bool.eq_false_iff.mpr hafter, Bool.false_and, Bool.false_and]

/-! ### What a record may be -/

/-- The deletion of a path below the root is refused for two reasons, and each is told
apart. -/
theorem deleteAt_error_iff (hp : p ≠ .root) (e : OverlayError) :
    o.deleteAt p = .error e ↔
      (e = .alreadyDeleted p ∧ o.record? p = some .delete) ∨
      (e = .notFound p ∧ o.record? p = none ∧
        o.project.store.isFile (p.locate o.project.base) = false) := by
  have hnames : p.names ≠ [] := fun h => hp (ProjectPath.ext_names h)
  have hfile : o.project.isFile p = o.project.store.isFile (p.locate o.project.base) := by
    unfold Project.isFile
    rw [decide_eq_true hnames, Bool.true_and]
  unfold deleteAt
  rw [hfile]
  rcases hr : o.record? p with _ | ⟨d⟩ | ⟨d⟩ | _
  · rcases hstored : o.project.store.isFile (p.locate o.project.base) with _ | _
    · simpa using eq_comm
    · simp
  · simp
  · simp
  · simpa using eq_comm

/-- What holds of all records of an overlay over a project.  No two paths are written alike,
and a written path is read as itself; only a deletion has no content; and what is to be
replaced or deleted is a file that the store has. -/
structure Sound (p : Project) (o : Overlay) : Prop where
  distinct : (o.records.keys.map ProjectPath.text).Nodup
  canonical : ∀ q r, (q, r) ∈ o.records → (o.resolve q.text).text = q.text
  content : ∀ q r, (q, r) ∈ o.records → (r.content? = none ↔ r.kind = .delete)
  stored : ∀ q r, (q, r) ∈ o.records → r.kind ≠ .add → p.store.isFile (q.locate p.base) = true

theorem Grounded.sound (G : Grounded o) (hopen : o.project.IsOpen) : Sound o.project o where
  distinct := G.distinct.map_on fun _ _ _ _ h => ProjectPath.text_injective h
  canonical q r _ := by rw [resolve_text]
  content q r _ := by cases r <;> simp [Pending.content?, Pending.kind]
  stored q r hmem hkind := by
    rw [hopen.store_isFile_eq]
    exact G.isSome q r (Entries.get?_of_mem G.distinct hmem) hkind

/-- **The records of an overlay, whatever calls have been made.**  They are sound; they stand in
the order in which their paths last came to be recorded, so a further call keeps the order of
those that it leaves and puts new ones at the end; and a deletion below the root is refused
as done already exactly where the deletion is on record, and as a deletion of nothing exactly
where nothing is on record and the store has no such file. -/
theorem run_sound_in_order (p : Project) (hopen : p.IsOpen) (ops : List Operation) :
    let o := (empty p).run ops
    Sound p o ∧
    o.records.keys = ((empty p).arrivals ops).dedup.filter (fun q => (o.record? q).isSome) ∧
    (∀ op, (o.after op).records.keys =
      o.records.keys.filter (fun q => ((o.after op).record? q).isSome) ++ o.recorded op) ∧
    ∀ s, o.resolve s ≠ .root → ∀ e, o.delete s = .error e ↔
      (e = .alreadyDeleted (o.resolve s) ∧ o.record? (o.resolve s) = some .delete) ∨
      (e = .notFound (o.resolve s) ∧ o.record? (o.resolve s) = none ∧
        p.store.isFile ((o.resolve s).locate p.base) = false) := by
  intro o
  have hproject : o.project = p := run_project (empty p) ops
  have G : Grounded o := (Grounded.empty p).run hopen ops
  have hsound : Sound o.project o := G.sound (by rwa [hproject])
  refine ⟨by rwa [hproject] at hsound, keys_run hopen ops, keys_after o, fun s hs e => ?_⟩
  have herror := deleteAt_error_iff (o := o) hs e
  rwa [hproject] at herror

/-- A file that is renamed onto one that is deleted takes its place, and one that is forgotten
and added again goes to the end. -/
theorem run_sound_in_order_renamed :
    let p : Project := .ofTexts [("a", "x"), ("b", "y")]
    let ops : List Operation :=
      [.add "c" "v", .update "b" "z", .delete "a", .rename "b" "./a", .delete "c", .add "/c" "w"]
    p.IsOpen ∧ ((empty p).run ops).records.keys.map ProjectPath.text = ["b", "a", "c"] ∧
      ((empty p).run ops).delete "b" = .error (.alreadyDeleted ((empty p).resolve "b")) := by
  intro p ops
  have hopen : p.IsOpen := Project.isOpen_ofTexts _
  obtain ⟨-, hkeys, -, hdelete⟩ := run_sound_in_order p hopen ops
  refine ⟨hopen, ?_, (hdelete "b" (by decide +kernel) _).mpr (.inl ?_)⟩
  · rw [hkeys]
    decide +kernel
  · decide +kernel

end Overlay

end Upkeep
