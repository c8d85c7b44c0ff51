/-
Documents in the files of an overlay.

An edit reaches its result by accepted calls only, and each of them changes the content of
one path.  A file that holds the printed text of a readable document, with a line feed
behind it or not, is read as that document; so what an edit writes, a later edit reads.
-/
import Upkeep.Overlay.Document
import Upkeep.Proofs.Json.Edit
import Upkeep.Proofs.Overlay.Operation

namespace Upkeep

namespace Overlay

/-- The second overlay is reached from the first and has this content at the path that the
spelling names, all others having kept theirs. -/
structure Writes (o : Overlay) (path text : String) (o' : Overlay) : Prop where
  reaches : Reaches o o'
  project : o'.project = o.project
  content? : ∀ s, o'.content? s = if o.resolve path = o.resolve s then some text else o.content? s

/-- The second overlay is reached from the first, with at most the file that the spelling
names changed. -/
structure Touches (o : Overlay) (path : String) (o' : Overlay) : Prop where
  reaches : Reaches o o'
  project : o'.project = o.project
  frame : ∀ s, o.resolve path ≠ o.resolve s → o'.content? s = o.content? s

variable {o o' : Overlay} {path text : String}

theorem Touches.refl (o : Overlay) (path : String) : Touches o path o :=
  ⟨.refl o, rfl, fun _ _ => rfl⟩

theorem Writes.touches (W : Writes o path text o') : Touches o path o' :=
  ⟨W.reaches, W.project, fun s hs => by rw [W.content?, if_neg hs]⟩

/-- A pending change of one path is all that changes. -/
theorem writes_put {r : Pending} (hr : r.content? = some text)
    (hreaches : Reaches o (o.put (o.resolve path) r)) :
    Writes o path text (o.put (o.resolve path) r) := by
  refine ⟨hreaches, rfl, fun s => ?_⟩
  unfold content?
  rw [resolve_of_project (put_project r), contentAt?_put, hr]

theorem update_ok (h : o.update path text = .ok o') : Writes o path text o' := by
  have hreaches : Reaches o o' :=
    .perform (show o.perform (.update path text) = .ok o' from h)
  obtain ⟨current, hcurrent, ⟨rfl, rfl⟩ | ⟨-, rfl⟩ | ⟨-, -, rfl⟩⟩ := updateAt_ok h
  · refine ⟨hreaches, rfl, fun s => ?_⟩
    by_cases hs : o'.resolve path = o'.resolve s
    · rw [if_pos hs]
      unfold content?
      rw [← hs, hcurrent]
    · rw [if_neg hs]
  · exact writes_put rfl hreaches
  · exact writes_put rfl hreaches

theorem add_ok (h : o.add path text = .ok o') : Writes o path text o' := by
  have hreaches : Reaches o o' :=
    .perform (show o.perform (.add path text) = .ok o' from h)
  obtain ⟨-, rfl⟩ := addAt_ok h
  exact writes_put rfl hreaches

/-- The content that a file has changes nothing. -/
theorem update_self (h : o.content? path = some text) : o.update path text = .ok o := by
  unfold content? at h
  unfold update updateAt
  rw [h]
  simp

/-! ### Documents -/

/-- The file holds a text that is read as this document, which can be read back once it is
printed. -/
def Holds (o : Overlay) (path : String) (v : Json.Value) : Prop :=
  (∃ text, o.content? path = some text ∧ Json.read text = .ok v) ∧
    v.Readable Json.Reader.maxDepth

theorem Holds.congr {v : Json.Value} (h : Holds o path v)
    (hsame : o'.content? path = o.content? path) : Holds o' path v := by
  obtain ⟨⟨text, htext, hread⟩, hreadable⟩ := h
  exact ⟨⟨text, hsame.trans htext, hread⟩, hreadable⟩

theorem Holds.readDocument {v : Json.Value} (h : Holds o path v) :
    o.readDocument path = .ok v := by
  obtain ⟨⟨text, htext, hread⟩, -⟩ := h
  unfold Overlay.readDocument parseDocument
  rw [htext]
  simp only [hread]
  rfl

theorem readDocument_ok {v : Json.Value} (h : o.readDocument path = .ok v) :
    ∃ text, o.content? path = some text ∧ Json.read text = .ok v := by
  unfold readDocument parseDocument at h
  split at h
  · simp at h
  next text htext =>
    refine ⟨text, htext, ?_⟩
    cases hread : Json.read text with
    | error problem => simp [hread, Except.mapError] at h
    | ok w =>
        rw [hread] at h
        cases h
        rfl

theorem mapError_ok {ε ε' α : Type} {f : ε → ε'} {x : Except ε α} {a : α}
    (h : x.mapError f = .ok a) : x = .ok a := by
  cases x with
  | error e => simp [Except.mapError] at h
  | ok b => simpa [Except.mapError] using h

/-- The text that a document is written as, told what text the file had, if any. -/
def documentText (before : Option String) (v : Json.Value) : String :=
  if before.all endsInLineFeed then v.pretty ++ "\n" else v.pretty

/-- It is the printed text, with a line feed behind it or nothing. -/
theorem exists_documentText_eq (before : Option String) (v : Json.Value) :
    ∃ gap, Json.Reader.Blank gap.toList ∧ documentText before v = v.pretty ++ gap := by
  unfold documentText
  split
  · refine ⟨"\n", fun c hc => ?_, rfl⟩
    rw [List.mem_singleton.mp hc]
    rfl
  · exact ⟨"", Json.Reader.blank_nil, String.append_empty.symm⟩

theorem writeDocument_eq (o : Overlay) (path : String) (v : Json.Value) :
    o.writeDocument path v =
      match o.content? path with
      | some before => (o.update path (documentText (some before) v)).mapError .refused
      | none => (o.add path (documentText none v)).mapError .refused := rfl

theorem writeDocument_ok {v : Json.Value} (h : o.writeDocument path v = .ok o') :
    Writes o path (documentText (o.content? path) v) o' := by
  rw [writeDocument_eq] at h
  split at h
  next before hbefore =>
    rw [hbefore]
    exact update_ok (mapError_ok h)
  next hnone =>
    rw [hnone]
    exact add_ok (mapError_ok h)

/-- A file that is there can be written. -/
theorem exists_writeDocument {current : String} (h : o.content? path = some current)
    (v : Json.Value) : ∃ o', o.writeDocument path v = .ok o' := by
  have hupdate : ∀ text, ∃ o', o.update path text = .ok o' := by
    intro text
    unfold content? at h
    unfold update updateAt
    rw [h]
    simp only
    split
    · exact ⟨_, rfl⟩
    · split <;> exact ⟨_, rfl⟩
  obtain ⟨o', ho'⟩ := hupdate (documentText (some current) v)
  exact ⟨o', by rw [writeDocument_eq, h]; simp only [ho']; rfl⟩

/-- **What is written is held**, and nothing else changes. -/
theorem holds_writeDocument {v : Json.Value} (hv : v.Readable Json.Reader.maxDepth)
    (h : o.writeDocument path v = .ok o') : Touches o path o' ∧ Holds o' path v := by
  have W := writeDocument_ok h
  obtain ⟨gap, hgap, htext⟩ := exists_documentText_eq (o.content? path) v
  exact ⟨W.touches, ⟨_, by rw [W.content?, if_pos rfl], htext ▸ hv.read_pretty hgap⟩, hv⟩

end Overlay

end Upkeep
