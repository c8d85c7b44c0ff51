/-
Carrying pending changes out.

`flush` applies the records one after the other and stops at the first that the store
refuses; what was applied before stays.
-/
import Upkeep.Overlay

namespace Upkeep

/-- A pending change that the store refused. -/
structure FlushError where
  path : ProjectPath
  cause : StoreError
  deriving DecidableEq

/-- The wording of a refused change. -/
def FlushError.message (e : FlushError) : String :=
  s!"Failed to write {e.path.text}: {e.cause.message}"

namespace Project

/-- Carries out one change. -/
def apply (p : Project) (path : ProjectPath) : Pending → Project × Option StoreError
  | .add content | .update content => p.write path content
  | .delete => p.remove path

/-- Carries out changes in order, up to the first that is refused. -/
def applyAll (p : Project) : ChangeSet → Project × Option FlushError
  | [] => (p, none)
  | (path, r) :: rest =>
    match p.apply path r with
    | (p, none) => p.applyAll rest
    | (p, some cause) => (p, some ⟨path, cause⟩)

end Project

/-- Carries the pending changes out; the project is what became of it in any case. -/
def Overlay.flush (o : Overlay) : Project × Option FlushError := o.project.applyAll o.records

end Upkeep
