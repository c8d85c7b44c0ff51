/-
The arguments of the command line.

Words are read from left to right.  The first word that is no switch is the verb, and the
verb says which switches may follow.  A switch that takes a value has it behind an `=`,
or, if it is a single letter, right behind the letter, or else in the next word, which then
must not look like a switch.  Letters without a value may be run together, and a lone `--`
ends the switches.

Help is asked for with a switch, which stands in front or behind any verb, or with a verb of its
own, which may name another.  The switches for help and for the version end the reading.
-/
import Upkeep.Console.KeyValue

namespace Upkeep.Console

/-- What can be asked for. -/
inductive Verb where
  | update
  | add
  | migrations
  | help
  deriving DecidableEq, Repr

/-- The verb that a word stands for. -/
def Verb.ofWord? : String → Option Verb
  | "update" | "u" => some .update
  | "add" => some .add
  | "migrations" => some .migrations
  | "help" => some .help
  | _ => none

/-- The switches. -/
inductive Switch where
  | debug
  | help
  | version
  | force
  | commit
  | path
  | only
  | option
  | first
  | last
  deriving DecidableEq, Repr

namespace Switch

/-- The name behind two hyphens. -/
def long : Switch → String
  | debug => "debug"
  | help => "help"
  | version => "version"
  | force => "force"
  | commit => "commit"
  | path => "path"
  | only => "only"
  | option => "option"
  | first => "from"
  | last => "to"

/-- The letter behind one hyphen. -/
def letter? : Switch → Option Char
  | debug => some 'd'
  | help => some 'h'
  | version => some 'V'
  | option => some 'o'
  | _ => none

/-- What the value is called, if the switch comes with one. -/
def placeholder? : Switch → Option String
  | path => some "DIR"
  | only => some "KEY"
  | option => some "KEY=VALUE"
  | first | last => some "VERSION"
  | _ => none

/-- The switch comes with a value. -/
def takesValue (s : Switch) : Bool := s.placeholder?.isSome

/-- What follows the switch is passed over. -/
def endsReading : Switch → Bool
  | help | version => true
  | _ => false

/-- The switches that may stand behind a verb, or in front of any. -/
def allowed : Option Verb → List Switch
  | none => [debug, help, version]
  | some .update => [debug, force, commit, path, only, help]
  | some .add => [debug, commit, force, option, path, help]
  | some .migrations => [debug, first, last, help]
  | some .help => []

/-- How a message writes the switch. -/
def text (s : Switch) : String := "--" ++ s.long

end Switch

/-- Why the arguments say nothing. -/
inductive UsageError where
  | missingVerb
  | unexpected (word : String)
  | repeated (s : Switch)
  | missingValue (s : Switch)
  | needlessValue (s : Switch)
  | invalidValue (s : Switch) (value reason : String)
  deriving DecidableEq, Repr

/-- The wording of an error in the arguments. -/
def UsageError.message : UsageError → String
  | missingVerb => "expected one of update, add, migrations"
  | unexpected word => s!"unexpected argument '{word}'"
  | repeated s => s!"the argument '{s.text}' cannot be used multiple times"
  | missingValue s => s!"a value is required for '{s.text}'"
  | needlessValue s => s!"no value is expected for '{s.text}'"
  | invalidValue s value reason => s!"invalid value '{value}' for '{s.text}': {reason}"

/-- What has been read of the arguments. -/
structure Reading where
  verb : Option Verb := none
  /-- The switches behind the verb with their values, in order. -/
  switches : List (Switch × String) := []
  /-- The word behind the verb that is no switch. -/
  operand : Option String := none
  /-- The switch whose value is the next word. -/
  awaited : Option Switch := none
  /-- No more switches can come. -/
  literal : Bool := false
  deriving DecidableEq, Repr

namespace Reading

/-- The switch has been read. -/
def has (r : Reading) (s : Switch) : Bool := r.switches.any fun e => e.1 = s

/-- The values of a switch, in order. -/
def values (r : Reading) (s : Switch) : List String :=
  (r.switches.filter fun e => e.1 = s).map Prod.snd

/-- Takes a switch with its value.  Only options may be repeated, and a path is not empty. -/
def put (r : Reading) (s : Switch) (value : String) : Except UsageError Reading :=
  if s ≠ .option ∧ r.has s then .error (.repeated s)
  else if s = .path ∧ value = "" then .error (.missingValue s)
  else .ok { r with switches := r.switches ++ [(s, value)], awaited := none }

/-- Takes a switch that is written with two hyphens, and perhaps with a value. -/
def long (r : Reading) (cs : List Char) : Except UsageError Reading :=
  let (name, value?) := Text.cut '=' cs
  match (Switch.allowed r.verb).find? fun s => s.long.toList = name, value? with
  | none, _ => .error (.unexpected ("--" ++ String.ofList name))
  | some s, some value =>
    if s.takesValue then r.put s (String.ofList value) else .error (.needlessValue s)
  | some s, none => if s.takesValue then .ok { r with awaited := some s } else r.put s ""

/-- The value that is written right behind a letter. -/
def attached : List Char → String
  | '=' :: cs => String.ofList cs
  | cs => String.ofList cs

/-- Takes switches that are written as letters behind one hyphen. -/
def letters (r : Reading) : List Char → Except UsageError Reading
  | [] => .ok r
  | c :: cs =>
    match (Switch.allowed r.verb).find? fun s => s.letter? = some c with
    | none => .error (.unexpected ("-" ++ String.ofList [c]))
    | some s =>
      if s.endsReading then r.put s ""
      else if !s.takesValue then do letters (← r.put s "") cs
      else if cs = [] then .ok { r with awaited := some s }
      else r.put s (attached cs)

/-- The verb that a word stands for, unless the switches have ended before it. -/
def verbOf? (r : Reading) (w : String) : Option Verb := if r.literal then none else Verb.ofWord? w

/-- Takes a word that is no switch. -/
def word (r : Reading) (w : String) : Except UsageError Reading :=
  match r.verb, r.operand with
  | none, _ => match r.verbOf? w with
    | some verb => .ok { verb }
    | none => .error (.unexpected w)
  | some .add, none => .ok { r with operand := some w }
  | some .help, none =>
    if (Verb.ofWord? w).isSome then .ok { r with operand := some w } else .error (.unexpected w)
  | some _, _ => .error (.unexpected w)

/-- No argument counts any more. -/
def isOver (r : Reading) : Bool := r.switches.any fun e => e.1.endsReading

/-- Takes the next argument.  Behind the verb for help no word is a switch. -/
def next (r : Reading) (w : String) : Except UsageError Reading :=
  if r.isOver then .ok r
  else if r.verb = some .help then r.word w
  else match r.awaited, r.literal, w.toList with
    | some s, _, '-' :: _ :: _ => .error (.missingValue s)
    | some s, _, _ => r.put s w
    | none, false, ['-', '-'] => .ok { r with literal := true }
    | none, false, '-' :: '-' :: cs => r.long cs
    | none, false, '-' :: c :: cs => r.letters (c :: cs)
    | none, _, _ => r.word w

end Reading

/-- How a project is changed. -/
structure Mode where
  /-- Nothing is checked beforehand. -/
  force : Bool
  /-- A checkpoint is recorded after each step. -/
  commit : Bool
  /-- The root of the project, if it is not the current directory. -/
  path : Option String
  deriving DecidableEq, Repr

/-- What is asked for. -/
inductive Request where
  | version
  /-- Explains a verb, or the tool. -/
  | help (topic : Option Verb)
  /-- Brings the project up to date, or runs only the migration with a key. -/
  | update (mode : Mode) (only : Option String)
  /-- Runs an addition with options. -/
  | add (mode : Mode) (name : Option String) (options : List (String × String))
  /-- Lists the migrations between two versions. -/
  | migrations (first last : Option String)
  deriving DecidableEq, Repr

namespace Reading

/-- The only value of a switch. -/
def value? (r : Reading) (s : Switch) : Option String := (r.values s).head?

/-- How the project is to be changed. -/
def mode (r : Reading) : Mode := ⟨r.has .force, r.has .commit, r.value? .path⟩

/-- An option of an addition. -/
def option (raw : String) : Except UsageError (String × String) :=
  (parseKeyValue raw).mapError (.invalidValue .option raw)

/-- The options of an addition. -/
def options (r : Reading) : Except UsageError (List (String × String)) :=
  (r.values .option).mapM option

/-- What the arguments ask for, once all are read.  The switch for help does not excuse a
malformed option in front of it. -/
def request (r : Reading) : Except UsageError Request := do
  match r.awaited with
  | some s => throw (.missingValue s)
  | none =>
    let options ← r.options
    if r.has .help then return .help r.verb
    match r.verb with
    | some .update => return .update r.mode (r.value? .only)
    | some .add => return .add r.mode r.operand options
    | some .migrations => return .migrations (r.value? .first) (r.value? .last)
    | some .help => return .help (r.operand.bind Verb.ofWord?)
    | none => if r.has .version then return .version else throw .missingVerb

end Reading

/-- What the arguments ask for. -/
def Request.read (args : List String) : Except UsageError Request := do
  (← args.foldlM Reading.next {}).request

example : (Request.read ["-d", "add", "-oa=b", "x"]).toOption =
    some (.add ⟨false, false, none⟩ (some "x") [("a", "b")]) := by decide +kernel
example : (Request.read ["u", "--path", "--force"]).toOption = none := by decide +kernel
example : (Request.read ["help", "u"]).toOption = some (.help (some .update)) := by
  decide +kernel

/-- Arguments that no longer count are passed over. -/
theorem Reading.foldlM_next_of_isOver {r : Reading} (h : r.isOver = true) (ws : List String) :
    ws.foldlM next r = .ok r := by
  induction ws with
  | nil => rfl
  | cons w ws ih =>
      have hnext : r.next w = .ok r := if_pos h
      rw [List.foldlM_cons, hnext]
      exact ih

/-- Help that is asked for in front is given, whatever follows. -/
theorem Request.read_help (ws : List String) : read ("--help" :: ws) = .ok (.help none) := by
  have hnext : Reading.next {} "--help" = .ok { switches := [(.help, "")] } := by rfl
  unfold read
  rw [List.foldlM_cons, hnext]
  show (ws.foldlM Reading.next _ >>= Reading.request) = _
  rw [Reading.foldlM_next_of_isOver rfl]
  rfl

end Upkeep.Console
