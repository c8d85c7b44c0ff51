/-
Codemods.

A codemod turns an overlay into another one: it reads files and leaves changes pending.
It may also carry out on its way what is pending by then, so the project can be another
one after a run, and a run that stops tells what became of it.  The codemod of an edit does
nothing of the kind.  A codemod may declare the options that it takes.
-/
import Upkeep.Failure
import Upkeep.Options.Validation

namespace Upkeep

/-- A run that stopped: why, and the project as it was left. -/
structure Halt where
  cause : Failure
  project : Project

/-- A transformation of a project's files. -/
structure Codemod where
  name : String
  schema : Option Schema
  run : Overlay → Options → Except Halt Overlay

/-- The outcome of an edit, which leaves the project as it was even where it stops. -/
def Overlay.halting (o : Overlay) (outcome : Except Failure Overlay) : Except Halt Overlay :=
  outcome.mapError fun cause => ⟨cause, o.project⟩

/-- Carries the pending changes out in the middle of a run; they stay on record. -/
def Overlay.carriedOut (o : Overlay) : Except Halt Overlay :=
  match o.flush with
  | (project, none) => .ok { o with project }
  | (project, some e) => .error ⟨.unflushed e, project⟩

/-- An option as help texts show it. -/
structure Flag where
  name : String
  required : Bool
  description : String
  deriving DecidableEq, Repr

/-- The options of a schema as help texts show them. -/
def Schema.flags (s : Schema) : List Flag := s.map fun f => ⟨f.name, f.required, f.description⟩

namespace Codemod

/-- The codemod of an edit: everything stays pending. -/
def ofEdit (name : String) (schema : Option Schema)
    (edit : Overlay → Options → Except Failure Overlay) : Codemod :=
  ⟨name, schema, fun o options => o.halting (edit o options)⟩

/-- The options that a codemod declares, as help texts show them. -/
def flags (c : Codemod) : List Flag := (c.schema.getD []).flags

/-- The options that a codemod is run with: those of its schema, or the raw ones where it
has none. -/
def options (c : Codemod) (name : String) (raw : Options) : Except ValidationError Options :=
  match c.schema with
  | some s => s.validate name raw
  | none => .ok raw

end Codemod

end Upkeep
