/-
Paths inside a project.

A `ProjectPath` is a list of ordinary names from the root of the project down: no empty
name, no `.` or `..`, and no slash or backslash in a name.  `ProjectPath.resolve` reads
any spelling as one.  Backslashes count as slashes, an absolute path under the root of
the project is taken from there and any other absolute path from the file system's
root as if that were the project's, and `..` goes up but never out.
-/
import Upkeep.Path
import Upkeep.Text.Parts

namespace Upkeep

/-- A name that can stand for an entry of a directory. -/
def Ordinary (name : String) : Prop :=
  name ≠ "" ∧ name ≠ "." ∧ name ≠ ".." ∧ '/' ∉ name.toList ∧ '\\' ∉ name.toList

instance (name : String) : Decidable (Ordinary name) := by unfold Ordinary; infer_instance

/-- The place of a file or directory inside a project. -/
structure ProjectPath where
  names : List String
  ordinary : ∀ n ∈ names, Ordinary n
  deriving DecidableEq

namespace ProjectPath

/-- The root of the project. -/
def root : ProjectPath := ⟨[], by simp⟩

/-- The written form of a path: its names with slashes between them. -/
def text (p : ProjectPath) : String := "/".intercalate p.names

instance : ToString ProjectPath := ⟨text⟩

/-- Where the path lies, as seen from the base of the project. -/
def locate (base : String) (p : ProjectPath) : String :=
  if p.names = [] then base else Path.join base p.text

/-- The directory that holds the path; the root holds itself. -/
def parent (p : ProjectPath) : ProjectPath :=
  ⟨p.names.dropLast, fun n h => p.ordinary n (List.dropLast_subset _ h)⟩

/-! ### Reading a spelling -/

/-- One slash for both slashes. -/
def unify (spelling : String) : List Char :=
  spelling.toList.map fun c => if c = '\\' then '/' else c

/-- Follows a component from a list of names; going up from none stays there. -/
def step (names : List String) : Component → List String
  | .name n => names ++ [n]
  | .up => names.dropLast
  | .root | .here => names

/-- Follows components from the root of the project. -/
def follow (cs : List Component) : List String := cs.foldl step []

/-- The components that a spelling names, relative to the root of the project. -/
def relative (base spelling : String) : List Component :=
  let cs := Path.components (String.ofList (unify spelling))
  if cs.head? = some .root then (Path.within? (Path.components base) cs).getD cs else cs

theorem mem_foldl_step {cs : List Component} {names : List String} {n : String}
    (h : n ∈ cs.foldl step names) : n ∈ names ∨ .name n ∈ cs := by
  induction cs generalizing names with
  | nil => exact .inl h
  | cons c cs ih =>
    rcases ih h with h | h
    · cases c with
      | name m =>
        rcases List.mem_append.1 h with h | h
        · exact .inl h
        · simp only [List.mem_singleton] at h
          exact .inr (by simp [h])
      | up => exact .inl (List.dropLast_subset _ h)
      | root => exact .inl h
      | here => exact .inl h
    · exact .inr (List.mem_cons_of_mem _ h)

theorem name_mem_components {path : String} {n : String} (h : .name n ∈ Path.components path) :
    n ≠ "" ∧ n ≠ "." ∧ n ≠ ".." ∧ '/' ∉ n.toList ∧ ∀ c ∈ n.toList, c ∈ path.toList := by
  have h : .name n ∈ Path.ofParts (path.toList.splitOn '/') := by
    unfold Path.components at h
    simp only at h
    split at h
    · simpa using h
    · split at h <;> simpa using h
  obtain ⟨part, hmem, hpart⟩ := List.mem_filterMap.1 h
  obtain ⟨rfl, h1, h2, h3⟩ := Component.mem_of_ofPart?_eq_name hpart
  refine ⟨?_, ?_, ?_, ?_, ?_⟩
  · intro e; exact h1 (by simpa using congrArg String.toList e)
  · intro e; exact h2 (by simpa using congrArg String.toList e)
  · intro e; exact h3 (by simpa using congrArg String.toList e)
  · simpa using Text.notMem_of_mem_splitOn hmem
  · intro c hc
    rw [String.toList_ofList] at hc
    exact Text.mem_of_mem_splitOn hmem hc

theorem backslash_notMem_unify (spelling : String) : '\\' ∉ unify spelling := by
  simp only [unify, List.mem_map, not_exists, not_and]
  intro c _
  split <;> simp_all

theorem ordinary_of_mem_follow {base spelling n : String}
    (h : n ∈ follow (relative base spelling)) : Ordinary n := by
  have hmem : .name n ∈ Path.components (String.ofList (unify spelling)) := by
    rcases mem_foldl_step h with h | h
    · simp at h
    · unfold relative at h
      simp only at h
      split at h
      · unfold Path.within? at h
        split at h
        · exact List.mem_of_mem_drop h
        · simpa using h
      · exact h
  obtain ⟨h1, h2, h3, h4, h5⟩ := name_mem_components hmem
  refine ⟨h1, h2, h3, h4, fun hb => ?_⟩
  exact backslash_notMem_unify spelling (by simpa using h5 _ hb)

/-- The path that a spelling names in the project at the base. -/
def resolve (base spelling : String) : ProjectPath :=
  ⟨follow (relative base spelling), fun _ h => ordinary_of_mem_follow h⟩

example : (resolve "/p" "/p/src\\..//a.ts").names = ["a.ts"] := by decide +kernel
example : (resolve "/p" "../../etc/x").names = ["etc", "x"] := by decide +kernel

end ProjectPath

end Upkeep
