/-
What a store refuses.

Every access of a store names a path as text; an error tells the path as it was named,
or the reason that the file system gives.
-/

namespace Upkeep

/-- The ways to touch a store. -/
inductive Access where
  | read
  | write
  | remove
  | list
  deriving DecidableEq, Repr

/-- Why an access was refused. -/
inductive StoreError where
  | missing (path : String)
  | denied (path : String)
  | io (reason : String)
  deriving DecidableEq, Repr

/-- The wording of a refusal. -/
def StoreError.message : StoreError → String
  | .missing path => s!"File not found: {path}"
  | .denied path => s!"Permission denied: {path}"
  | .io reason => s!"IO error: {reason}"

end Upkeep
