/-
Calls on an overlay that is changed in place.

Whoever changes one overlay in place keeps what a call has done by the time it is refused.
Adding, replacing and deleting look first and change last, so their refusals find nothing
done.  Renaming changes twice: it deletes the source and then adds the target, each by a
call that reads the written path once more, and a refused addition would leave the deletion
standing.  `renameInPlace` is that sequence.

The addition is never refused.  Where source and target are two paths, the deletion has no
say in whether the target is there; where they are one path, which was found to have a
content and not to be there, it is the root of the project, and the deletion is refused
itself.  So a refused call leaves nothing behind, whatever is pending and whatever the store
denies, and an accepted one shows in the paths that it names and nowhere else.
-/
import Upkeep.Proofs.Overlay.Operation

namespace Upkeep

namespace Overlay

/-- The overlay after a call that looks first and changes last, and why it was refused. -/
def settle (o : Overlay) : Except OverlayError Overlay → Overlay × Option OverlayError
  | .ok o' => (o', none)
  | .error e => (o, some e)

/-- Moves a file by a deletion and an addition of the written paths, one after the other; a
refused addition leaves the deletion standing. -/
def renameInPlace (o : Overlay) (source target : String) : Overlay × Option OverlayError :=
  let p := o.resolve source
  let q := o.resolve target
  match o.contentAt? p with
  | none => (o, some (.notFound p))
  | some content =>
    if o.hasAt q then (o, some (.alreadyExists q))
    else
      match o.settle (o.delete p.text) with
      | (o, some e) => (o, some e)
      | (o, none) => o.settle (o.add q.text content)

/-- One call on an overlay that is changed in place: what became of it, and why the call was
refused. -/
def inPlace (o : Overlay) : Operation → Overlay × Option OverlayError
  | .add s content => o.settle (o.add s content)
  | .update s content => o.settle (o.update s content)
  | .delete s => o.settle (o.delete s)
  | .rename s t => o.renameInPlace s t

variable {o o' : Overlay} {p q : ProjectPath}

/-! ### What other paths see of a call -/

theorem record?_addAt {content : String} (h : o.addAt p content = .ok o') (hne : p ≠ q) :
    o'.record? q = o.record? q := by
  obtain ⟨-, rfl⟩ := addAt_ok h
  rw [record?_put, if_neg hne]

theorem record?_updateAt {content : String} (h : o.updateAt p content = .ok o') (hne : p ≠ q) :
    o'.record? q = o.record? q := by
  obtain ⟨current, -, ⟨-, rfl⟩ | ⟨-, rfl⟩ | ⟨-, -, rfl⟩⟩ := updateAt_ok h
  · rfl
  · rw [record?_put, if_neg hne]
  · rw [record?_put, if_neg hne]

theorem record?_deleteAt (h : o.deleteAt p = .ok o') (hne : p ≠ q) :
    o'.record? q = o.record? q := by
  obtain ⟨-, rfl⟩ | ⟨-, rfl⟩ := deleteAt_ok h
  · rw [record?_forget, if_neg hne]
  · rw [record?_put, if_neg hne]

/-- An accepted call leaves the records of the paths alone that it does not name. -/
theorem record?_perform {op : Operation} (h : o.perform op = .ok o')
    (hq : q ∉ op.paths o.project.base) : o'.record? q = o.record? q := by
  cases op with
  | add s content => exact record?_addAt h fun hc => hq (List.mem_singleton.mpr hc.symm)
  | update s content => exact record?_updateAt h fun hc => hq (List.mem_singleton.mpr hc.symm)
  | delete s => exact record?_deleteAt h fun hc => hq (List.mem_singleton.mpr hc.symm)
  | rename s t =>
      obtain ⟨content, o₁, -, -, hdelete, hadd⟩ := renameAt_ok h
      have hsource : o.resolve s ≠ q := fun hc => hq (hc ▸ List.mem_cons_self)
      have htarget : o.resolve t ≠ q := fun hc =>
        hq (hc ▸ List.mem_cons_of_mem _ List.mem_cons_self)
      rw [record?_addAt hadd htarget, record?_deleteAt hdelete hsource]

/-- And so do calls in turn, refused ones included. -/
theorem record?_run {ops : List Operation} (hq : ∀ op ∈ ops, q ∉ op.paths o.project.base) :
    (o.run ops).record? q = o.record? q := by
  induction ops generalizing o with
  | nil => rfl
  | cons op ops ih =>
      have hfirst : (o.after op).record? q = o.record? q := by
        rcases hop : o.perform op with e | o₁
        · rw [after_of_error hop]
        · rw [after_of_ok hop]
          exact record?_perform hop (hq op List.mem_cons_self)
      refine (ih (o := o.after op) fun op' hop' => ?_).trans hfirst
      rw [after_project]
      exact hq op' (List.mem_cons_of_mem _ hop')

/-! ### A renaming in place -/

/-- Only the root of a project can have a content and not be there, and it cannot be
deleted. -/
theorem deleteAt_of_absent {content : String} (hcontent : o.contentAt? p = some content)
    (habsent : o.hasAt p = false) : o.deleteAt p = .error (.notFound p) := by
  unfold contentAt? at hcontent
  unfold hasAt at habsent
  unfold deleteAt
  rcases hr : o.record? p with _ | ⟨d⟩ | ⟨d⟩ | _
  · rw [hr] at habsent
    simp only at habsent ⊢
    rw [if_neg (by simp [habsent])]
  · rw [hr] at habsent
    simp [Pending.kind] at habsent
  · rw [hr] at habsent
    simp [Pending.kind] at habsent
  · rw [hr] at hcontent
    simp [Pending.content?] at hcontent

theorem deleteAt_project (h : o.deleteAt p = .ok o') : o'.project = o.project := by
  obtain ⟨-, rfl⟩ | ⟨-, rfl⟩ := deleteAt_ok h <;> rfl

/-- Where a source with a content can be deleted, a target that is not there is another
path. -/
theorem ne_of_deleteAt {content : String} (hcontent : o.contentAt? p = some content)
    (habsent : o.hasAt q = false) (hdelete : o.deleteAt p = .ok o') : p ≠ q := by
  rintro rfl
  rw [deleteAt_of_absent hcontent habsent] at hdelete
  simp at hdelete

/-- Once the source of a renaming is deleted, the addition of its target is accepted. -/
theorem addAt_after_deleteAt {content : String} (hcontent : o.contentAt? p = some content)
    (habsent : o.hasAt q = false) (hdelete : o.deleteAt p = .ok o') :
    o'.addAt q content = .ok (o'.put q (.add content)) := by
  have hne : p ≠ q := ne_of_deleteAt hcontent habsent hdelete
  have hstill : o'.hasAt q = false := by
    rw [hasAt_congr (deleteAt_project hdelete) (record?_deleteAt hdelete hne), habsent]
  unfold addAt
  rw [if_neg (by simp [hstill])]

/-- **A renaming in place is a renaming**: it is refused before anything is done, or not at
all. -/
theorem renameInPlace_eq (o : Overlay) (s t : String) :
    o.renameInPlace s t = o.settle (o.rename s t) := by
  unfold renameInPlace rename renameAt
  simp only
  rcases hcontent : o.contentAt? (o.resolve s) with _ | content
  · rfl
  by_cases habsent : o.hasAt (o.resolve t) = true
  · simp only [if_pos habsent]
    rfl
  simp only [if_neg habsent]
  unfold delete
  rw [resolve_text]
  rcases hdelete : o.deleteAt (o.resolve s) with e | o'
  · rfl
  · have hadd : o'.addAt (o.resolve t) content = .ok (o'.put (o.resolve t) (.add content)) :=
      addAt_after_deleteAt hcontent (by simpa using habsent) hdelete
    show o'.settle (o'.add (o.resolve t).text content) = o.settle (o'.addAt (o.resolve t) content)
    unfold add
    rw [resolve_text, hadd]
    rfl

theorem inPlace_eq (o : Overlay) (op : Operation) : o.inPlace op = o.settle (o.perform op) := by
  cases op with
  | rename s t => exact renameInPlace_eq o s t
  | _ => rfl

/-- **Every call is atomic and local.**  One that is refused in place leaves the overlay just
as it was, all records and their order included; in particular no renaming loses its source.
One that is accepted keeps the project below, and what is shown under every spelling of a
path that it does not name.  This holds of every overlay over any store, whatever accesses
that store denies. -/
theorem inPlace_atomic_local (o : Overlay) (op : Operation) :
    (∀ o' e, o.inPlace op = (o', some e) → o' = o ∧ o.perform op = .error e) ∧
    (∀ o', o.inPlace op = (o', none) →
      o.perform op = .ok o' ∧ o'.project = o.project ∧
        ∀ s, o.resolve s ∉ op.paths o.project.base →
          o'.content? s = o.content? s ∧ o'.has s = o.has s) := by
  rw [inPlace_eq]
  rcases h : o.perform op with e | o'
  · refine ⟨fun o'' e' hrefused => ?_, fun o'' haccepted => by simp [settle] at haccepted⟩
    cases hrefused
    exact ⟨rfl, rfl⟩
  · refine ⟨fun o'' e' hrefused => by simp [settle] at hrefused, fun o'' haccepted => ?_⟩
    cases haccepted
    have hproject : o'.project = o.project := perform_project h
    refine ⟨rfl, hproject, fun s hs => ?_⟩
    have hrecord : o'.record? (o.resolve s) = o.record? (o.resolve s) := record?_perform h hs
    unfold content? has
    rw [resolve_of_project hproject]
    exact ⟨contentAt?_congr hproject hrecord, hasAt_congr hproject hrecord⟩

/-- A renaming onto a file that is there keeps its source; one that is accepted does not
touch a third file. -/
theorem inPlace_atomic_local_rename :
    let o : Overlay := (empty (.ofTexts [("a", "x"), ("b", "y")])).run [.update "a" "z"]
    (∃ e, o.inPlace (.rename "a" "./b") = (o, some e)) ∧
      ∃ o', o.inPlace (.rename "a" "c") = (o', none) ∧
        o'.content? "b" = some "y" ∧ o'.has "b" = true := by
  intro o
  have hrefused : (o.inPlace (.rename "a" "./b")).2.isSome = true := by decide +kernel
  have haccepted : (o.inPlace (.rename "a" "c")).2 = none := by decide +kernel
  have hother : o.resolve "b" ∉ Operation.paths o.project.base (.rename "a" "c") := by
    decide +kernel
  obtain ⟨hkept, -⟩ := inPlace_atomic_local o (.rename "a" "./b")
  obtain ⟨-, hlocal⟩ := inPlace_atomic_local o (.rename "a" "c")
  constructor
  · rcases h : o.inPlace (.rename "a" "./b") with ⟨o', _ | e⟩
    · rw [h] at hrefused
      simp at hrefused
    · exact ⟨e, by rw [(hkept o' e h).1]⟩
  · rcases h : o.inPlace (.rename "a" "c") with ⟨o', e⟩
    rw [h] at haccepted
    simp only at haccepted
    subst haccepted
    obtain ⟨-, -, hframe⟩ := hlocal o' h
    obtain ⟨hcontent, hhas⟩ := hframe "b" hother
    have hbefore : o.content? "b" = some "y" ∧ o.has "b" = true := by decide +kernel
    exact ⟨o', rfl, hcontent.trans hbefore.1, hhas.trans hbefore.2⟩

end Overlay

end Upkeep
