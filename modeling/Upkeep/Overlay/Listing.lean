/-
The entries of a directory, pending changes counted in.

What the store lists comes first, by name and without what is to be deleted; files
whose addition is pending follow in the order in which they were added.
-/
import Upkeep.Overlay

namespace Upkeep.Overlay

/-- The written form of an entry of a folder. -/
def entryText (folder : ProjectPath) (name : String) : String :=
  if folder.names = [] then name else folder.text ++ "/" ++ name

/-- Names in ascending order of their characters. -/
def sortNames (names : List String) : List String := names.mergeSort fun a b => a ≤ b

/-- The entries of a folder as written paths. -/
def entriesAt (o : Overlay) (folder : ProjectPath) : List String :=
  let stored := sortNames ((o.project.list folder).toOption.getD [])
  let kept := (stored.map (entryText folder)).filter fun path =>
    o.records.named? path ≠ some .delete
  let added := (o.records.ofKind .add).filter fun p => p.parent = folder
  kept ++ (added.map ProjectPath.text).filter fun path => path ∉ kept

/-- The entries of the folder with this spelling. -/
def entries (o : Overlay) (spelling : String) : List String := o.entriesAt (o.resolve spelling)

end Upkeep.Overlay
