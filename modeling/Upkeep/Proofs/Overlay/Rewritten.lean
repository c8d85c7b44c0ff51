/-
Documents that are read after they were written.

An edit writes the document that it read with a few texts put in.  Whatever its numbers are,
the file can then be read again, and holds what was written but for the numbers.
-/
import Upkeep.Proofs.Json.Outline
import Upkeep.Proofs.Overlay.Frame

namespace Upkeep.Overlay

variable {o o' : Overlay} {path : String} {v : Json.Value}

theorem shaped_of_readDocument (h : o.readDocument path = .ok v) :
    v.Shaped Json.Number.InRange Json.Reader.maxDepth := by
  obtain ⟨text, -, hread⟩ := readDocument_ok h
  exact Json.inRange_of_read hread

theorem Alters.readDocument {paths : List ProjectPath} (A : o.Alters paths o')
    (h : o.resolve path ∉ paths) : o'.readDocument path = o.readDocument path := by
  unfold Overlay.readDocument
  rw [A.content? h]

/-- **What is written can be read**, and is the same but for its numbers. -/
theorem exists_readDocument_of_write
    (hv : v.Shaped Json.Number.InRange Json.Reader.maxDepth)
    (h : o.writeDocument path v = .ok o') :
    ∃ w, o'.readDocument path = .ok w ∧ w.outline = v.outline := by
  obtain ⟨gap, hgap, htext⟩ := exists_documentText_eq (o.content? path) v
  obtain ⟨w, hread, houtline⟩ := hv.exists_read_pretty hgap
  refine ⟨w, ?_, houtline⟩
  unfold readDocument parseDocument
  rw [(writeDocument_ok h).content?, if_pos rfl, htext]
  simp only [hread]
  rfl

end Upkeep.Overlay
