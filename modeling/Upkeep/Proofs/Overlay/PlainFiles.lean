/-
An overlay against a plain map of files.

`PlainFiles` is what an overlay is meant to look like from outside: a map from paths to
contents in which a call takes effect at once.  Run by run the two are compared through
what can be seen after every call.

They part in one way only.  A file of the project that has been deleted and added again
is a pending addition, and deleting a pending addition forgets it: the file of the project
shows through again.  So an overlay is a plain map exactly as long as no file of the
project is taken away twice.
-/
import Mathlib.Data.List.Nodup
import Mathlib.Logic.Function.Basic
import Upkeep.Proofs.Overlay.Operation

namespace Upkeep

/-- What can be seen after a call: whether it was accepted, and what every spelling
answers. -/
structure Observation where
  accepted : Bool
  content? : String → Option String
  has : String → Bool

/-- Files by path, changed in place. -/
abbrev PlainFiles := ProjectPath → Option String

namespace PlainFiles

/-- The files of a project. -/
def ofProject (p : Project) : PlainFiles := p.content?

/-- Carries out one call, if the files let it. -/
def perform (base : String) (f : PlainFiles) : Operation → Option PlainFiles
  | .add s content =>
    let p := ProjectPath.resolve base s
    if (f p).isSome then none else some (Function.update f p (some content))
  | .update s content =>
    let p := ProjectPath.resolve base s
    if (f p).isSome then some (Function.update f p (some content)) else none
  | .delete s =>
    let p := ProjectPath.resolve base s
    if (f p).isSome then some (Function.update f p none) else none
  | .rename s t =>
    let p := ProjectPath.resolve base s
    let q := ProjectPath.resolve base t
    if (f p).isSome ∧ (f q).isNone then
      some (Function.update (Function.update f p none) q (f p))
    else none

/-- The files after one call; a refused one changes nothing. -/
def after (base : String) (f : PlainFiles) (op : Operation) : PlainFiles :=
  (f.perform base op).getD f

/-- The files after calls in turn. -/
def run (base : String) (f : PlainFiles) (ops : List Operation) : PlainFiles :=
  ops.foldl (after base) f

/-- What can be seen after each call in turn.  The root of a project is never a file. -/
def history (base : String) : PlainFiles → List Operation → List Observation
  | _, [] => []
  | f, op :: ops =>
    let g := f.after base op
    { accepted := (f.perform base op).isSome
      content? := fun s => g (.resolve base s)
      has := fun s => ProjectPath.resolve base s ≠ .root && (g (.resolve base s)).isSome } ::
      history base g ops

/-- The calls that are accepted. -/
def accepted (base : String) : PlainFiles → List Operation → List Operation
  | _, [] => []
  | f, op :: ops =>
    (if (f.perform base op).isSome then [op] else []) ++ accepted base (f.after base op) ops

/-- The paths that accepted calls take away, each as often as it is taken. -/
def removals (base : String) (f : PlainFiles) (ops : List Operation) : List ProjectPath :=
  (f.accepted base ops).filterMap (Operation.source? base)

/-- The path that one call takes away, if it is accepted and takes one. -/
def removal (base : String) (f : PlainFiles) (op : Operation) : List ProjectPath :=
  if (f.perform base op).isSome then (op.source? base).toList else []

theorem removals_cons (base : String) (f : PlainFiles) (op : Operation) (ops : List Operation) :
    f.removals base (op :: ops) = f.removal base op ++ (f.after base op).removals base ops := by
  unfold removals removal
  rw [accepted, List.filterMap_append]
  split
  · cases h : op.source? base <;> simp [h]
  · rfl

theorem removal_of_some {f g : PlainFiles} {op : Operation} (h : f.perform base op = some g) :
    f.removal base op = (op.source? base).toList := by
  unfold removal
  rw [h]
  rfl

/-- What an accepted call asks of the files, and what it makes of them. -/
theorem perform_some {f g : PlainFiles} {op : Operation} (h : f.perform base op = some g) :
    match op with
    | .add s content =>
        f (.resolve base s) = none ∧ g = Function.update f (.resolve base s) (some content)
    | .update s content =>
        (f (.resolve base s)).isSome = true ∧
          g = Function.update f (.resolve base s) (some content)
    | .delete s =>
        (f (.resolve base s)).isSome = true ∧ g = Function.update f (.resolve base s) none
    | .rename s t =>
        (f (.resolve base s)).isSome = true ∧ f (.resolve base t) = none ∧
          g = Function.update (Function.update f (.resolve base s) none) (.resolve base t)
            (f (.resolve base s)) := by
  cases op with
  | add s content =>
      obtain ⟨hnone, hg⟩ := Option.ite_none_left_eq_some.mp h
      exact ⟨by simpa using hnone, (Option.some.inj hg).symm⟩
  | update s content =>
      obtain ⟨hsome, hg⟩ := Option.ite_none_right_eq_some.mp h
      exact ⟨hsome, (Option.some.inj hg).symm⟩
  | delete s =>
      obtain ⟨hsome, hg⟩ := Option.ite_none_right_eq_some.mp h
      exact ⟨hsome, (Option.some.inj hg).symm⟩
  | rename s t =>
      obtain ⟨⟨hsome, hnone⟩, hg⟩ := Option.ite_none_right_eq_some.mp h
      exact ⟨hsome, Option.isNone_iff_eq_none.mp hnone, (Option.some.inj hg).symm⟩

theorem ne_of_isSome_of_none {f : PlainFiles} {p q : ProjectPath} (hp : (f p).isSome = true)
    (hq : f q = none) : p ≠ q := by
  rintro rfl
  rw [hq] at hp
  exact Bool.noConfusion hp

/-- An accepted call leaves nothing at the path that it takes away. -/
theorem after_source {base : String} {f : PlainFiles} {op : Operation} {q : ProjectPath}
    (haccepted : (f.perform base op).isSome = true) (hsource : op.source? base = some q) :
    f.after base op q = none := by
  obtain ⟨g, hg⟩ := Option.isSome_iff_exists.mp haccepted
  have hperform := perform_some hg
  unfold after
  rw [hg, Option.getD_some]
  cases op with
  | add s content => simp [Operation.source?] at hsource
  | update s content => simp [Operation.source?] at hsource
  | delete s =>
      cases hsource
      rw [hperform.2, Function.update_self]
  | rename s t =>
      cases hsource
      obtain ⟨hsome, hnone, rfl⟩ := hperform
      rw [Function.update_of_ne (ne_of_isSome_of_none hsome hnone), Function.update_self]

end PlainFiles

namespace Overlay

/-- What can be seen after each call in turn. -/
def history : Overlay → List Operation → List Observation
  | _, [] => []
  | o, op :: ops =>
    { accepted := (o.perform op).isOk
      content? := (o.after op).content?
      has := (o.after op).has } :: history (o.after op) ops

/-- The calls that are accepted. -/
def accepted : Overlay → List Operation → List Operation
  | _, [] => []
  | o, op :: ops => (if (o.perform op).isOk then [op] else []) ++ accepted (o.after op) ops

/-- The record does not build on what the project has at the path. -/
def Detached (r : Option Pending) : Prop := r = some .delete ∨ ∃ c, r = some (.add c)

/-- The overlay looks like the plain files, and `gone` are the paths that have been taken
away.  A file of the project is among them exactly when its record is detached from it. -/
structure Mirrors (start : Project) (o : Overlay) (f : PlainFiles) (gone : List ProjectPath) :
    Prop where
  project : o.project = start
  content : ∀ q, o.contentAt? q = f q
  root : o.record? .root = none
  gone : ∀ q, start.isFile q = true → (q ∈ gone ↔ Detached (o.record? q))

namespace Mirrors

variable {start : Project} {o : Overlay} {f : PlainFiles} {gone : List ProjectPath}
  {p q : ProjectPath}

theorem names_ne_nil (hp : p ≠ .root) : p.names ≠ [] := fun h => hp (ProjectPath.ext_names h)

theorem hasAt (M : Mirrors start o f gone) (hopen : start.IsOpen) (hp : p ≠ .root) :
    o.hasAt p = (f p).isSome := by
  rw [hasAt_eq (by rwa [M.project]) (names_ne_nil hp), M.content]

/-- Without a record and without a file in the project there is no content. -/
theorem content_none (M : Mirrors start o f gone) (hopen : start.IsOpen) (hp : p ≠ .root)
    (hrecord : o.record? p = none) (hfile : start.isFile p = false) : f p = none := by
  rw [← M.content, contentAt?_of_none hrecord, M.project]
  rw [hopen.isFile_eq, decide_eq_true (names_ne_nil hp), Bool.true_and] at hfile
  simpa using hfile

theorem content_put (M : Mirrors start o f gone) (r : Pending) (q : ProjectPath) :
    (o.put p r).contentAt? q = Function.update f p r.content? q := by
  rw [contentAt?_put]
  by_cases h : p = q
  · rw [if_pos h, h, Function.update_self]
  · rw [if_neg h, Function.update_of_ne (Ne.symm h), M.content]

/-- A record may be replaced by one that is detached just as it was. -/
theorem put (M : Mirrors start o f gone) (hp : p ≠ .root) (r : Pending)
    (hr : start.isFile p = true → (Detached (o.record? p) ↔ Detached (some r))) :
    Mirrors start (o.put p r) (Function.update f p r.content?) gone := by
  refine ⟨M.project, M.content_put r, ?_, fun q hq => ?_⟩
  · rw [record?_put, if_neg hp]
    exact M.root
  · rw [record?_put, M.gone q hq]
    by_cases hpq : p = q
    · subst hpq
      rw [if_pos rfl, hr hq]
    · rw [if_neg hpq]

theorem add (M : Mirrors start o f gone) (hopen : start.IsOpen) (hp : p ≠ .root)
    (hf : f p = none) (content : String) :
    ∃ o', o.addAt p content = .ok o' ∧
      Mirrors start o' (Function.update f p (some content)) gone := by
  have hhas : o.hasAt p = false := by rw [M.hasAt hopen hp, hf]; rfl
  refine ⟨o.put p (.add content), by simp [addAt, hhas], M.put hp (.add content) fun hfile => ?_⟩
  -- The file of the project is hidden, which only a deletion can have done.
  have hseen := M.content p
  rw [hf] at hseen
  refine iff_of_true ?_ (Or.inr ⟨content, rfl⟩)
  rcases hr : o.record? p with _ | ⟨d⟩ | ⟨d⟩ | _
  · rw [contentAt?_of_none hr, M.project] at hseen
    rw [hopen.isFile_eq, hseen] at hfile
    simp at hfile
  · rw [contentAt?_of_record? hr] at hseen
    simp [Pending.content?] at hseen
  · rw [contentAt?_of_record? hr] at hseen
    simp [Pending.content?] at hseen
  · exact Or.inl rfl

theorem add_refused (M : Mirrors start o f gone) (hopen : start.IsOpen) (hp : p ≠ .root)
    (hf : (f p).isSome = true) (content : String) :
    o.addAt p content = .error (.alreadyExists p) := by
  unfold addAt
  rw [M.hasAt hopen hp, if_pos hf]

theorem update (M : Mirrors start o f gone) (hp : p ≠ .root) (hf : (f p).isSome = true)
    (content : String) :
    ∃ o', o.updateAt p content = .ok o' ∧
      Mirrors start o' (Function.update f p (some content)) gone := by
  obtain ⟨current, hcurrent⟩ := Option.isSome_iff_exists.mp hf
  have hseen : o.contentAt? p = some current := by rw [M.content, hcurrent]
  by_cases hsame : current = content
  · refine ⟨o, by simp [updateAt, hseen, hsame], ?_⟩
    rwa [← hsame, ← hcurrent, Function.update_eq_self]
  rcases hr : o.record? p with _ | ⟨d⟩ | ⟨d⟩ | _
  · refine ⟨o.put p (.update content), by simp [updateAt, hseen, hsame, hr], M.put hp _ fun _ => ?_⟩
    simp [Detached, hr]
  · refine ⟨o.put p (.add content), by simp [updateAt, hseen, hsame, hr], M.put hp _ fun _ => ?_⟩
    simp [Detached, hr]
  · refine ⟨o.put p (.update content), by simp [updateAt, hseen, hsame, hr], M.put hp _ fun _ => ?_⟩
    simp [Detached, hr]
  · rw [contentAt?_of_record? hr] at hseen
    simp [Pending.content?] at hseen

theorem update_refused (M : Mirrors start o f gone) (hf : f p = none) (content : String) :
    o.updateAt p content = .error (.notFound p) := by
  have hseen : o.contentAt? p = none := by rw [M.content, hf]
  unfold updateAt
  rw [hseen]

/-- What is known of the paths taken away goes on to one more. -/
theorem mem_gone_of_ne (hpq : p ≠ q) : q ∈ gone ++ [p] ↔ q ∈ gone := by
  rw [List.mem_append, List.mem_singleton]
  exact or_iff_left (Ne.symm hpq)

theorem put_delete (M : Mirrors start o f gone) (hp : p ≠ .root) :
    Mirrors start (o.put p .delete) (Function.update f p none) (gone ++ [p]) := by
  refine ⟨M.project, M.content_put _, ?_, fun q hq => ?_⟩
  · rw [record?_put, if_neg hp]
    exact M.root
  · rw [record?_put]
    by_cases hpq : p = q
    · rw [if_pos hpq, ← hpq]
      exact iff_of_true (by simp) (Or.inl rfl)
    · rw [if_neg hpq, mem_gone_of_ne hpq, M.gone q hq]

theorem delete (M : Mirrors start o f gone) (hopen : start.IsOpen) (hp : p ≠ .root)
    (hf : (f p).isSome = true) (hgone : start.isFile p = true → p ∉ gone) :
    ∃ o', o.deleteAt p = .ok o' ∧
      Mirrors start o' (Function.update f p none) (gone ++ [p]) := by
  rcases hr : o.record? p with _ | ⟨d⟩ | ⟨d⟩ | _
  · have hfile : start.isFile p = true := by
      by_contra hc
      rw [M.content_none hopen hp hr (by simpa using hc)] at hf
      simp at hf
    exact ⟨o.put p .delete, by simp [deleteAt, hr, M.project, hfile], M.put_delete hp⟩
  · -- Nothing of the project is below the addition, so forgetting it leaves nothing.
    have hfile : start.isFile p = false := by
      by_contra hc
      have hfile : start.isFile p = true := by simpa using hc
      exact hgone hfile ((M.gone p hfile).mpr (Or.inr ⟨d, hr⟩))
    have hnone : start.content? p = none := by
      rw [hopen.isFile_eq, decide_eq_true (names_ne_nil hp), Bool.true_and] at hfile
      simpa using hfile
    refine ⟨o.forget p, by simp [deleteAt, hr, forget], M.project, fun q => ?_, ?_,
      fun q hq => ?_⟩
    · rw [contentAt?_forget, M.project]
      by_cases hpq : p = q
      · rw [if_pos hpq, ← hpq, hnone, Function.update_self]
      · rw [if_neg hpq, Function.update_of_ne (Ne.symm hpq), M.content]
    · rw [record?_forget, if_neg hp]
      exact M.root
    · have hpq : p ≠ q := by
        rintro rfl
        rw [hq] at hfile
        exact Bool.noConfusion hfile
      rw [record?_forget, if_neg hpq, mem_gone_of_ne hpq, M.gone q hq]
  · exact ⟨o.put p .delete, by simp [deleteAt, hr], M.put_delete hp⟩
  · have hseen := M.content p
    rw [contentAt?_of_record? hr] at hseen
    rw [← hseen] at hf
    simp [Pending.content?] at hf

theorem delete_refused (M : Mirrors start o f gone) (hopen : start.IsOpen) (hf : f p = none) :
    ∃ e, o.deleteAt p = .error e := by
  have hseen : o.contentAt? p = none := by rw [M.content, hf]
  rcases hr : o.record? p with _ | ⟨d⟩ | ⟨d⟩ | _
  · rw [contentAt?_of_none hr] at hseen
    have hfile : o.project.isFile p = false := by
      rw [M.project] at hseen ⊢
      rw [hopen.isFile_eq, hseen]
      simp
    exact ⟨.notFound p, by simp [deleteAt, hr, hfile]⟩
  · rw [contentAt?_of_record? hr] at hseen
    simp [Pending.content?] at hseen
  · rw [contentAt?_of_record? hr] at hseen
    simp [Pending.content?] at hseen
  · exact ⟨.alreadyDeleted p, by simp [deleteAt, hr]⟩

/-- **A file of the project that is taken away once more is uncovered.** -/
theorem delete_again (M : Mirrors start o f gone) (hf : (f p).isSome = true)
    (hfile : start.isFile p = true) (hgone : p ∈ gone) : o.deleteAt p = .ok (o.forget p) := by
  rcases (M.gone p hfile).mp hgone with hr | ⟨d, hr⟩
  · have hseen := M.content p
    rw [contentAt?_of_record? hr] at hseen
    rw [← hseen] at hf
    simp [Pending.content?] at hf
  · simp [deleteAt, hr, forget]

theorem rename (M : Mirrors start o f gone) (hopen : start.IsOpen) (hp : p ≠ .root)
    (hq : q ≠ .root) (hfp : (f p).isSome = true) (hfq : f q = none)
    (hgone : start.isFile p = true → p ∉ gone) :
    ∃ o', o.renameAt p q = .ok o' ∧
      Mirrors start o' (Function.update (Function.update f p none) q (f p)) (gone ++ [p]) := by
  obtain ⟨content, hcontent⟩ := Option.isSome_iff_exists.mp hfp
  have hpq : q ≠ p := by
    rintro rfl
    rw [hfq] at hfp
    exact Bool.noConfusion hfp
  obtain ⟨o₁, hdelete, M₁⟩ := M.delete hopen hp hfp hgone
  obtain ⟨o', hadd, M'⟩ := M₁.add hopen hq
    (by rw [Function.update_of_ne hpq, hfq]) content
  refine ⟨o', ?_, by rwa [hcontent]⟩
  have hseen : o.contentAt? p = some content := by rw [M.content, hcontent]
  have hhas : o.hasAt q = false := by rw [M.hasAt hopen hq, hfq]; rfl
  simp [renameAt, hseen, hhas, hdelete, hadd, bind, Except.bind]

theorem rename_refused (M : Mirrors start o f gone) (hopen : start.IsOpen) (hq : q ≠ .root)
    (hf : ¬((f p).isSome = true ∧ (f q).isNone = true)) : ∃ e, o.renameAt p q = .error e := by
  cases hp : f p with
  | none =>
      have hseen : o.contentAt? p = none := by rw [M.content, hp]
      exact ⟨.notFound p, by simp [renameAt, hseen]⟩
  | some content =>
      have hseen : o.contentAt? p = some content := by rw [M.content, hp]
      have hhas : o.hasAt q = true := by
        rw [M.hasAt hopen hq]
        cases hfq : f q with
        | none => exact absurd ⟨by rw [hp]; rfl, by rw [hfq]; rfl⟩ hf
        | some c => rfl
      exact ⟨.alreadyExists q, by simp [renameAt, hseen, hhas]⟩

theorem rename_again (M : Mirrors start o f gone) (hopen : start.IsOpen) (hq : q ≠ .root)
    (hfp : (f p).isSome = true) (hfq : f q = none) (hfile : start.isFile p = true)
    (hgone : p ∈ gone) : ∃ r, o.renameAt p q = .ok ((o.forget p).put q r) := by
  obtain ⟨content, hcontent⟩ := Option.isSome_iff_exists.mp hfp
  have hpq : p ≠ q := by
    rintro rfl
    rw [hfq] at hfp
    exact Bool.noConfusion hfp
  have hseen : o.contentAt? p = some content := by rw [M.content, hcontent]
  have hhas : o.hasAt q = false := by rw [M.hasAt hopen hq, hfq]; rfl
  have hforget : (o.forget p).hasAt q = false := by
    unfold Overlay.hasAt at hhas ⊢
    rwa [record?_forget, if_neg hpq]
  refine ⟨.add content, ?_⟩
  simp [renameAt, hseen, hhas, M.delete_again hfp hfile hgone, addAt, hforget, bind, Except.bind]

/-! ### One call -/

variable {op : Operation}

/-- What one call has to keep: both sides answer alike and still look alike. -/
def Agrees (start : Project) (o : Overlay) (f : PlainFiles) (gone : List ProjectPath)
    (op : Operation) : Prop :=
  (o.perform op).isOk = (f.perform start.base op).isSome ∧
    Mirrors start (o.after op) (f.after start.base op) (gone ++ f.removal start.base op)

theorem agrees_of_accepted {o' : Overlay} {f' : PlainFiles} (h : o.perform op = .ok o')
    (hf : f.perform start.base op = some f')
    (M' : Mirrors start o' f' (gone ++ (op.source? start.base).toList)) :
    Agrees start o f gone op := by
  unfold Agrees PlainFiles.removal PlainFiles.after
  rw [after_of_ok h, h, hf]
  exact ⟨rfl, M'⟩

theorem agrees_of_refused {e : OverlayError} (M : Mirrors start o f gone)
    (h : o.perform op = .error e) (hf : f.perform start.base op = none) :
    Agrees start o f gone op := by
  unfold Agrees PlainFiles.removal PlainFiles.after
  rw [after_of_error h, h, hf]
  exact ⟨rfl, by simpa using M⟩

theorem notMem_gone {p : ProjectPath} {file : ProjectPath → Bool}
    (h : ((gone ++ [p]).filter file).Nodup) (hp : file p = true) : p ∉ gone := by
  rw [List.filter_append, List.nodup_append] at h
  intro hmem
  exact h.2.2 p (List.mem_filter.mpr ⟨hmem, hp⟩) p (by simp [hp]) rfl

theorem mem_gone {p : ProjectPath} {file : ProjectPath → Bool} (hnodup : (gone.filter file).Nodup)
    (h : ¬((gone ++ [p]).filter file).Nodup) : file p = true ∧ p ∈ gone := by
  by_contra hc
  refine h ?_
  rw [List.filter_append, List.nodup_append]
  refine ⟨hnodup, List.Nodup.filter _ (List.nodup_singleton p), ?_⟩
  rintro a ha b hb rfl
  obtain ⟨hmem, hfile⟩ := List.mem_filter.mp hb
  obtain rfl := List.mem_singleton.mp hmem
  exact hc ⟨hfile, (List.mem_filter.mp ha).1⟩

/-- **A call that takes no file of the project away a second time keeps both sides alike.** -/
theorem step (M : Mirrors start o f gone) (hopen : start.IsOpen)
    (hroot : ∀ q ∈ op.paths start.base, q ≠ .root)
    (honce : ((gone ++ f.removal start.base op).filter start.isFile).Nodup) :
    Agrees start o f gone op := by
  obtain rfl := M.project
  cases op with
  | add s content =>
      have hp : o.resolve s ≠ .root := hroot _ (by simp [Operation.paths, resolve, Project.resolve])
      cases hf : f (o.resolve s) with
      | none =>
          obtain ⟨o', ho', M'⟩ := M.add hopen hp hf content
          refine agrees_of_accepted ho' (if_neg ?_) ?_
          · rw [show f (.resolve o.project.base s) = none from hf]
            simp
          · rwa [← List.append_nil gone] at M'
      | some c =>
          have hsome : (f (o.resolve s)).isSome = true := by rw [hf]; rfl
          exact agrees_of_refused M (M.add_refused hopen hp hsome content) (if_pos hsome)
  | update s content =>
      have hp : o.resolve s ≠ .root := hroot _ (by simp [Operation.paths, resolve, Project.resolve])
      cases hf : f (o.resolve s) with
      | none =>
          refine agrees_of_refused M (M.update_refused hf content) (if_neg ?_)
          rw [show f (.resolve o.project.base s) = none from hf]
          simp
      | some c =>
          have hsome : (f (o.resolve s)).isSome = true := by rw [hf]; rfl
          obtain ⟨o', ho', M'⟩ := M.update hp hsome content
          refine agrees_of_accepted ho' (if_pos hsome) ?_
          rwa [← List.append_nil gone] at M'
  | delete s =>
      have hp : o.resolve s ≠ .root := hroot _ (by simp [Operation.paths, resolve, Project.resolve])
      cases hf : f (o.resolve s) with
      | none =>
          obtain ⟨e, he⟩ := M.delete_refused hopen hf
          refine agrees_of_refused M he (if_neg ?_)
          rw [show f (.resolve o.project.base s) = none from hf]
          simp
      | some c =>
          have hsome : (f (o.resolve s)).isSome = true := by rw [hf]; rfl
          have hperform : f.perform o.project.base (.delete s) =
              some (Function.update f (o.resolve s) none) := if_pos hsome
          rw [PlainFiles.removal_of_some hperform] at honce
          obtain ⟨o', ho', M'⟩ := M.delete hopen hp hsome (notMem_gone honce)
          exact agrees_of_accepted ho' hperform M'
  | rename s t =>
      have hp : o.resolve s ≠ .root := hroot _ (by simp [Operation.paths, resolve, Project.resolve])
      have hq : o.resolve t ≠ .root := hroot _ (by simp [Operation.paths, resolve, Project.resolve])
      by_cases hf : (f (o.resolve s)).isSome = true ∧ (f (o.resolve t)).isNone = true
      · have hperform : f.perform o.project.base (.rename s t) =
            some (Function.update (Function.update f (o.resolve s) none) (o.resolve t)
              (f (o.resolve s))) := if_pos hf
        rw [PlainFiles.removal_of_some hperform] at honce
        obtain ⟨o', ho', M'⟩ :=
          M.rename hopen hp hq hf.1 (Option.isNone_iff_eq_none.mp hf.2) (notMem_gone honce)
        exact agrees_of_accepted ho' hperform M'
      · obtain ⟨e, he⟩ := M.rename_refused hopen hq hf
        exact agrees_of_refused M he (if_neg hf)

/-- **A call that takes a file of the project away a second time uncovers it.** -/
theorem step_uncovers (M : Mirrors start o f gone) (hopen : start.IsOpen)
    (hroot : ∀ q ∈ op.paths start.base, q ≠ .root) (hnodup : (gone.filter start.isFile).Nodup)
    (htwice : ¬((gone ++ f.removal start.base op).filter start.isFile).Nodup) :
    ∃ s, (o.perform op).isOk = true ∧ op.source? start.base = some (.resolve start.base s) ∧
      ((o.after op).content? s).isSome = true ∧
      f.after start.base op (.resolve start.base s) = none := by
  obtain rfl := M.project
  -- Only an accepted call that takes a path away makes the list longer.
  have haccepted : (f.perform o.project.base op).isSome = true := by
    by_contra hc
    rw [PlainFiles.removal, if_neg hc, List.append_nil] at htwice
    exact htwice hnodup
  obtain ⟨f', hperform⟩ := Option.isSome_iff_exists.mp haccepted
  have hremoval := PlainFiles.removal_of_some hperform
  have hagain : ∀ p, op.source? o.project.base = some p →
      o.project.isFile p = true ∧ p ∈ gone := by
    intro p hp
    rw [hremoval, hp] at htwice
    exact mem_gone hnodup htwice
  have huncovered : ∀ p, o.project.isFile p = true → (o.project.content? p).isSome = true := by
    intro p hp
    rw [hopen.isFile_eq] at hp
    exact (Bool.and_eq_true_iff.mp hp).2
  cases op with
  | add s content => simp [hremoval, Operation.source?, hnodup] at htwice
  | update s content => simp [hremoval, Operation.source?, hnodup] at htwice
  | delete s =>
      obtain ⟨hfile, hgone⟩ := hagain _ rfl
      obtain ⟨hsome, -⟩ := PlainFiles.perform_some hperform
      have hok : o.perform (.delete s) = .ok (o.forget (o.resolve s)) :=
        M.delete_again hsome hfile hgone
      refine ⟨s, by rw [hok]; rfl, rfl, ?_, PlainFiles.after_source haccepted rfl⟩
      rw [after_of_ok hok]
      show ((o.forget (o.resolve s)).contentAt? (o.resolve s)).isSome = true
      rw [contentAt?_forget, if_pos rfl]
      exact huncovered _ hfile
  | rename s t =>
      obtain ⟨hfile, hgone⟩ := hagain _ rfl
      obtain ⟨hsome, hnone, -⟩ := PlainFiles.perform_some hperform
      have hq : o.resolve t ≠ .root := hroot _ (by simp [Operation.paths, resolve, Project.resolve])
      have hne : o.resolve s ≠ o.resolve t := PlainFiles.ne_of_isSome_of_none hsome hnone
      obtain ⟨r, hr⟩ := M.rename_again hopen hq hsome hnone hfile hgone
      have hok : o.perform (.rename s t) = .ok ((o.forget (o.resolve s)).put (o.resolve t) r) := hr
      refine ⟨s, by rw [hok]; rfl, rfl, ?_, PlainFiles.after_source haccepted rfl⟩
      rw [after_of_ok hok]
      show (((o.forget (o.resolve s)).put (o.resolve t) r).contentAt? (o.resolve s)).isSome = true
      rw [contentAt?_put, if_neg hne.symm, contentAt?_forget, if_pos rfl]
      exact huncovered _ hfile

end Mirrors

end Overlay

end Upkeep
