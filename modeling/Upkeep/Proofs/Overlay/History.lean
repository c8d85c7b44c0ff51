/-
Runs of calls on an overlay and on plain files.

Two properties are wanted of every run.  What can be seen after each call is what a plain
map of files would show, and a path that has been taken away stays hidden until it is put
again.  Both hold of a run exactly when its calls take no file of the project away twice;
the second such call uncovers the file instead.
-/
import Upkeep.Proofs.Overlay.PlainFiles

namespace Upkeep

namespace PlainFiles

variable {base : String} {f : PlainFiles} {op : Operation} {q : ProjectPath}

/-- A call that does not put a path where there is nothing leaves nothing there. -/
theorem after_none (hq : f q = none)
    (htarget : (f.perform base op).isSome = true → op.target? base ≠ some q) :
    f.after base op q = none := by
  unfold after
  cases hg : f.perform base op with
  | none => rwa [Option.getD_none]
  | some g =>
      have hperform := perform_some hg
      have htarget := htarget (by rw [hg]; rfl)
      rw [Option.getD_some]
      cases op with
      | add s content =>
          have hne : q ≠ .resolve base s := fun hc => htarget (by rw [hc]; rfl)
          rwa [hperform.2, Function.update_of_ne hne]
      | update s content =>
          have hne : q ≠ .resolve base s := (ne_of_isSome_of_none hperform.1 hq).symm
          rwa [hperform.2, Function.update_of_ne hne]
      | delete s =>
          rw [hperform.2, Function.update_apply, hq, ite_self]
      | rename s t =>
          obtain ⟨-, -, rfl⟩ := hperform
          have hne : q ≠ .resolve base t := fun hc => htarget (by rw [hc]; rfl)
          rw [Function.update_of_ne hne, Function.update_apply, hq, ite_self]

theorem run_none {ops : List Operation} (hq : f q = none)
    (htarget : q ∉ (f.accepted base ops).filterMap (Operation.target? base)) :
    f.run base ops q = none := by
  induction ops generalizing f with
  | nil => exact hq
  | cons op ops ih =>
      rw [accepted, List.filterMap_append, List.mem_append, not_or] at htarget
      refine ih (after_none hq fun haccepted hc => htarget.1 ?_) htarget.2
      rw [if_pos haccepted]
      simp [hc]

theorem removals_append (base : String) (f : PlainFiles) (ops ops' : List Operation) :
    f.removals base (ops ++ ops') = f.removals base ops ++ (f.run base ops).removals base ops' := by
  induction ops generalizing f with
  | nil => rfl
  | cons op ops ih =>
      rw [List.cons_append, removals_cons, removals_cons, ih, List.append_assoc]
      rfl

end PlainFiles

namespace Overlay

namespace Mirrors

variable {start : Project} {o : Overlay} {f : PlainFiles} {gone : List ProjectPath}

variable {ops : List Operation}

/-- After every call the same can be seen on both sides. -/
theorem observation_eq (M : Mirrors start o f gone) (hopen : start.IsOpen) :
    o.content? = (fun s => f (.resolve start.base s)) ∧
      o.has = fun s => ProjectPath.resolve start.base s ≠ .root &&
        (f (.resolve start.base s)).isSome := by
  have hresolve : ∀ s, o.resolve s = .resolve start.base s := by
    intro s
    unfold Overlay.resolve Project.resolve
    rw [M.project]
  constructor
  · funext s
    unfold Overlay.content?
    rw [M.content, hresolve]
  · funext s
    unfold Overlay.has
    rw [hresolve]
    by_cases hp : ProjectPath.resolve start.base s = .root
    · unfold Overlay.hasAt
      rw [hp, M.root]
      simp [Project.isFile, ProjectPath.root]
    · rw [M.hasAt hopen hp]
      simp [hp]

theorem nodup_of_append {ps qs : List ProjectPath} {file : ProjectPath → Bool}
    (h : ((ps ++ qs).filter file).Nodup) : (ps.filter file).Nodup := by
  rw [List.filter_append] at h
  exact (List.nodup_append.mp h).1

theorem history_eq_iff (M : Mirrors start o f gone) (hopen : start.IsOpen)
    (hroot : ∀ op ∈ ops, ∀ q ∈ op.paths start.base, q ≠ .root)
    (hnodup : (gone.filter start.isFile).Nodup) :
    o.history ops = f.history start.base ops ↔
      ((gone ++ f.removals start.base ops).filter start.isFile).Nodup := by
  induction ops generalizing o f gone with
  | nil => exact iff_of_true rfl (by simpa [PlainFiles.removals, PlainFiles.accepted] using hnodup)
  | cons op ops ih =>
      rw [Overlay.history, PlainFiles.history, PlainFiles.removals_cons, ← List.append_assoc]
      have hop := hroot op (by simp)
      by_cases hone : ((gone ++ f.removal start.base op).filter start.isFile).Nodup
      · obtain ⟨hanswer, M'⟩ := M.step hopen hop hone
        obtain ⟨hcontent, hhas⟩ := M'.observation_eq hopen
        rw [← ih M' (fun op' h => hroot op' (by simp [h])) hone, List.cons_eq_cons, hanswer,
          hcontent, hhas]
        exact and_iff_right rfl
      · obtain ⟨s, -, -, hseen, hplain⟩ := M.step_uncovers hopen hop hnodup hone
        refine iff_of_false (fun heq => ?_) (fun hall => hone (nodup_of_append hall))
        have hs := congrFun (congrArg Observation.content? (List.cons.inj heq).1) s
        simp only at hs
        rw [hs, hplain] at hseen
        exact Bool.noConfusion hseen

/-- As long as no file is taken away twice both sides accept the same calls. -/
theorem run (M : Mirrors start o f gone) (hopen : start.IsOpen)
    (hroot : ∀ op ∈ ops, ∀ q ∈ op.paths start.base, q ≠ .root)
    (honce : ((gone ++ f.removals start.base ops).filter start.isFile).Nodup) :
    o.accepted ops = f.accepted start.base ops ∧
      Mirrors start (o.run ops) (f.run start.base ops) (gone ++ f.removals start.base ops) := by
  induction ops generalizing o f gone with
  | nil =>
      refine ⟨rfl, ?_⟩
      rw [show f.removals start.base [] = [] from rfl, List.append_nil]
      exact M
  | cons op ops ih =>
      rw [PlainFiles.removals_cons, ← List.append_assoc] at honce ⊢
      obtain ⟨hanswer, M'⟩ := M.step hopen (hroot op (by simp)) (nodup_of_append honce)
      obtain ⟨haccepted, M''⟩ := ih M' (fun op' h => hroot op' (by simp [h])) honce
      exact ⟨by rw [Overlay.accepted, PlainFiles.accepted, hanswer, haccepted], M''⟩

/-- The first call that takes a file away a second time, with the file that it uncovers. -/
theorem exists_uncovered (M : Mirrors start o f gone) (hopen : start.IsOpen)
    (hroot : ∀ op ∈ ops, ∀ q ∈ op.paths start.base, q ≠ .root)
    (hnodup : (gone.filter start.isFile).Nodup)
    (htwice : ¬((gone ++ f.removals start.base ops).filter start.isFile).Nodup) :
    ∃ pre op s, pre ++ [op] <+: ops ∧ ((o.run pre).perform op).isOk = true ∧
      op.source? start.base = some (.resolve start.base s) ∧
      ((o.run (pre ++ [op])).content? s).isSome = true := by
  induction ops generalizing o f gone with
  | nil => exact absurd (by simpa [PlainFiles.removals, PlainFiles.accepted] using hnodup) htwice
  | cons op ops ih =>
      rw [PlainFiles.removals_cons, ← List.append_assoc] at htwice
      have hop := hroot op (by simp)
      by_cases hone : ((gone ++ f.removal start.base op).filter start.isFile).Nodup
      · obtain ⟨-, M'⟩ := M.step hopen hop hone
        obtain ⟨pre, op', s, hinit, haccepted, hsource, hseen⟩ :=
          ih M' (fun op' h => hroot op' (by simp [h])) hone htwice
        exact ⟨op :: pre, op', s, List.cons_prefix_cons.mpr ⟨rfl, hinit⟩, haccepted, hsource, hseen⟩
      · obtain ⟨s, haccepted, hsource, hseen, -⟩ := M.step_uncovers hopen hop hnodup hone
        exact ⟨[], op, s, by simp, haccepted, hsource, hseen⟩

end Mirrors

/-- Whatever path an accepted call takes away stays hidden, under every spelling, until an
accepted call puts it again. -/
def RemovalsHide (o : Overlay) (ops : List Operation) : Prop :=
  ∀ pre op post s, pre ++ op :: post <+: ops → ((o.run pre).perform op).isOk = true →
    op.source? o.project.base = some (o.resolve s) →
    o.resolve s ∉
      ((o.run (pre ++ [op])).accepted post).filterMap (Operation.target? o.project.base) →
    (o.run (pre ++ op :: post)).content? s = none ∧ (o.run (pre ++ op :: post)).has s = false

variable {p : Project} {ops : List Operation}

theorem mirrors_empty : Mirrors p (empty p) (PlainFiles.ofProject p) [] := by
  refine ⟨rfl, fun q => rfl, rfl, fun q _ => ?_⟩
  exact iff_of_false (by simp) (by simp [Detached, record?, empty])

/-- The calls take no file of the project away twice. -/
def TakesOnce (p : Project) (ops : List Operation) : Prop :=
  (((PlainFiles.ofProject p).removals p.base ops).filter p.isFile).Nodup

instance (p : Project) (ops : List Operation) : Decidable (TakesOnce p ops) := by
  unfold TakesOnce
  infer_instance

theorem TakesOnce.initial {ops' : List Operation} (h : TakesOnce p ops) (hinit : ops' <+: ops) :
    TakesOnce p ops' := by
  obtain ⟨rest, rfl⟩ := hinit
  unfold TakesOnce at h
  rw [PlainFiles.removals_append] at h
  exact Mirrors.nodup_of_append h

theorem removalsHide_of_takesOnce (hopen : p.IsOpen)
    (hroot : ∀ op ∈ ops, ∀ q ∈ op.paths p.base, q ≠ .root) (honce : TakesOnce p ops) :
    (empty p).RemovalsHide ops := by
  intro pre op post s hinit haccepted hsource hput
  have hsource : op.source? p.base = some (.resolve p.base s) := hsource
  have hput : .resolve p.base s ∉
    (((empty p).run (pre ++ [op])).accepted post).filterMap (Operation.target? p.base) := hput
  have hsub : ∀ op' ∈ pre ++ op :: post, ∀ q ∈ op'.paths p.base, q ≠ .root :=
    fun op' h => hroot op' (hinit.subset h)
  have honce := honce.initial hinit
  unfold TakesOnce at honce
  rw [PlainFiles.removals_append, PlainFiles.removals_cons, ← List.append_assoc] at honce
  -- Up to the call, through it, and on to the end both sides look alike.
  obtain ⟨-, M₁⟩ := mirrors_empty.run hopen (fun op' h => hsub op' (by simp [h]))
    (Mirrors.nodup_of_append (Mirrors.nodup_of_append honce))
  obtain ⟨hanswer, M₂⟩ := M₁.step hopen (hsub op (by simp)) (Mirrors.nodup_of_append honce)
  obtain ⟨hcalls, M₃⟩ := M₂.run hopen (fun op' h => hsub op' (by simp [h])) honce
  have hafter : (empty p).run (pre ++ [op]) = ((empty p).run pre).after op := by
    rw [run_append]
    rfl
  rw [hafter, hcalls] at hput
  rw [hanswer] at haccepted
  have hnone := PlainFiles.run_none (PlainFiles.after_source haccepted hsource) hput
  obtain ⟨hcontent, hhas⟩ := M₃.observation_eq hopen
  have hrun : (empty p).run (pre ++ op :: post) = (((empty p).run pre).after op).run post := by
    rw [run_append]
    rfl
  rw [hrun, hcontent, hhas]
  exact ⟨hnone, by simp only [hnone, Option.isSome_none, Bool.and_false]⟩

theorem takesOnce_of_removalsHide (hopen : p.IsOpen)
    (hroot : ∀ op ∈ ops, ∀ q ∈ op.paths p.base, q ≠ .root) (hhide : (empty p).RemovalsHide ops) :
    TakesOnce p ops := by
  by_contra htwice
  obtain ⟨pre, op, s, hinit, haccepted, hsource, hseen⟩ :=
    mirrors_empty.exists_uncovered hopen hroot (by simp) htwice
  obtain ⟨hnone, -⟩ := hhide pre op [] s hinit haccepted hsource (by simp [accepted])
  rw [hnone] at hseen
  exact Bool.noConfusion hseen

/--
**An overlay is a plain map of files, and hides what is deleted, exactly as long as no
file of the project is taken away twice.**  The calls may spell their paths as they like,
as long as none of them names the root of the project.
-/
theorem history_eq_plain_iff (p : Project) (hopen : p.IsOpen) (ops : List Operation)
    (hroot : ∀ op ∈ ops, ∀ q ∈ op.paths p.base, q ≠ .root) :
    ((empty p).history ops = (PlainFiles.ofProject p).history p.base ops ↔ TakesOnce p ops) ∧
      ((empty p).RemovalsHide ops ↔ TakesOnce p ops) :=
  ⟨mirrors_empty.history_eq_iff hopen hroot (by simp),
    takesOnce_of_removalsHide hopen hroot, removalsHide_of_takesOnce hopen hroot⟩

/-- A file of the project that is deleted, added and deleted again comes to light. -/
theorem history_ne_plain_of_deleted_twice :
    let p : Project := .ofTexts [("a", "x")]
    let ops : List Operation := [.delete "a", .add "./a" "y", .delete "a"]
    p.IsOpen ∧ (∀ op ∈ ops, ∀ q ∈ op.paths p.base, q ≠ .root) ∧
      (empty p).history ops ≠ (PlainFiles.ofProject p).history p.base ops ∧
      ¬(empty p).RemovalsHide ops := by
  intro p ops
  have hopen : p.IsOpen := Project.isOpen_ofTexts _
  have hroot : ∀ op ∈ ops, ∀ q ∈ op.paths p.base, q ≠ .root := by decide +kernel
  have htwice : ¬TakesOnce p ops := by decide +kernel
  obtain ⟨hhistory, hhide⟩ := history_eq_plain_iff p hopen ops hroot
  exact ⟨hopen, hroot, fun h => htwice (hhistory.mp h), fun h => htwice (hhide.mp h)⟩

end Overlay

end Upkeep
