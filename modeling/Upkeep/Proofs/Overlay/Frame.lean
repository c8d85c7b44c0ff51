/-
What an edit leaves alone.

An edit names the paths that it may change.  The record of every other path stays as it is,
and with it everything that the path shows; so what a stage of an edit does to a path is
found by looking at the stages that name the path, whatever the other ones do.
-/
import Upkeep.Proofs.Overlay.Document
import Upkeep.Proofs.Overlay.InPlace

namespace Upkeep.Overlay

/-- The second overlay stands on the same project, and at most the records of these paths
are other ones. -/
structure Alters (o : Overlay) (paths : List ProjectPath) (o' : Overlay) : Prop where
  project : o'.project = o.project
  frame : ∀ q ∉ paths, o'.record? q = o.record? q

variable {o o' o'' : Overlay} {paths paths' : List ProjectPath} {path : String}

theorem Alters.refl (o : Overlay) (paths : List ProjectPath) : Alters o paths o :=
  ⟨rfl, fun _ _ => rfl⟩

theorem Alters.mono (A : Alters o paths o') (h : paths ⊆ paths') : Alters o paths' o' :=
  ⟨A.project, fun q hq => A.frame q fun hmem => hq (h hmem)⟩

theorem Alters.trans (A : Alters o paths o') (A' : Alters o' paths o'') : Alters o paths o'' :=
  ⟨A'.project.trans A.project, fun q hq => (A'.frame q hq).trans (A.frame q hq)⟩

theorem Alters.resolve (A : Alters o paths o') (s : String) : o'.resolve s = o.resolve s :=
  resolve_of_project A.project s

theorem Alters.content? (A : Alters o paths o') {s : String} (hs : o.resolve s ∉ paths) :
    o'.content? s = o.content? s := by
  unfold Overlay.content?
  rw [A.resolve, contentAt?_congr A.project (A.frame _ hs)]

theorem Alters.has (A : Alters o paths o') {s : String} (hs : o.resolve s ∉ paths) :
    o'.has s = o.has s := by
  unfold Overlay.has
  rw [A.resolve, hasAt_congr A.project (A.frame _ hs)]

/-- What is pending for a path says whether the file is there. -/
theorem has_put {p : ProjectPath} (r : Pending) (hp : o.resolve path = p) :
    (o.put p r).has path = decide (r.kind ≠ .delete) := by
  unfold Overlay.has hasAt
  rw [resolve_of_project (put_project r), record?_put, if_pos hp.symm]

/-- What is put and forgotten again leaves nothing behind. -/
theorem forget_put {p : ProjectPath} (h : o.record? p = none) (r : Pending) :
    (o.put p r).forget p = o := by
  unfold record? at h
  unfold forget put
  simp only
  rw [Entries.erase_put_of_notMem (Entries.get?_eq_none_iff.mp h)]

theorem alters_forget_put (o : Overlay) (p : ProjectPath) (r : Pending) :
    Alters o [p] ((o.put p r).forget p) := by
  refine ⟨rfl, fun q hq => ?_⟩
  have hne : p ≠ q := by
    rintro rfl
    exact hq List.mem_cons_self
  rw [record?_forget, if_neg hne, record?_put, if_neg hne]

/-! ### Calls -/

/-- An accepted call alters the paths that it names. -/
theorem alters_perform {op : Operation} (h : o.perform op = .ok o') :
    Alters o (op.paths o.project.base) o' :=
  ⟨perform_project h, fun _ hq => record?_perform h hq⟩

theorem alters_update {text : String} (h : o.update path text = .ok o') :
    Alters o [o.resolve path] o' :=
  alters_perform (show o.perform (.update path text) = .ok o' from h)

theorem alters_add {text : String} (h : o.add path text = .ok o') :
    Alters o [o.resolve path] o' :=
  alters_perform (show o.perform (.add path text) = .ok o' from h)

theorem alters_delete (h : o.delete path = .ok o') : Alters o [o.resolve path] o' :=
  alters_perform (show o.perform (.delete path) = .ok o' from h)

theorem alters_rename {target : String} (h : o.rename path target = .ok o') :
    Alters o [o.resolve path, o.resolve target] o' :=
  alters_perform (show o.perform (.rename path target) = .ok o' from h)

theorem alters_writeDocument {v : Json.Value} (h : o.writeDocument path v = .ok o') :
    Alters o [o.resolve path] o' := by
  unfold writeDocument at h
  split at h
  · exact alters_update (mapError_ok h)
  · exact alters_add (mapError_ok h)

end Upkeep.Overlay
