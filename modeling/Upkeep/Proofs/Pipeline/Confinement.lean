/-
A codemod does not get out of the project.

A codemod spells paths as it likes, and what it spells next may depend on every answer that it
got, so it is taken as a `Script` of calls on its overlay.  Whatever it spells, a call works on
the path that the spelling is read as, a list of ordinary names, and asks for the place of that
path and no other: the base of the project or what lies below it by those names.  Formatting
and carrying out go by the recorded paths, and these came about in the same way.
-/
import Upkeep.Proofs.Location
import Upkeep.Proofs.Pipeline.Dialogue
import Upkeep.Proofs.Pipeline.Prefix

namespace Upkeep

/-! ### Places inside a project -/

/-- The path is the base itself, or the base joined with ordinary names, and then it leads from
the base down by these names. -/
def Path.Confined (base path : String) : Prop :=
  Path.components path = Path.components base ∨
    ∃ names : List String, names ≠ [] ∧ (∀ n ∈ names, Ordinary n) ∧
      path = Path.join base ("/".intercalate names) ∧
      Path.components path = Path.components base ++ names.map .name

/-- Joining nothing to the base leads to the base. -/
theorem Path.components_join_empty (base : String) :
    Path.components (Path.join base "") = Path.components base := by
  unfold Path.join
  rw [if_neg (by decide)]
  by_cases hbase : base = ""
  · rw [if_pos hbase, hbase]
  rw [if_neg hbase]
  split
  · rw [String.append_empty]
  · have hjoined : base ++ "/" ++ "" = String.ofList (base.toList ++ '/' :: []) := by
      apply String.toList_injective
      simp
    rw [hjoined, Path.components_append_slash (by simpa using hbase), String.ofList_toList]
    exact List.append_nil _

namespace ProjectPath

/-- A path of the project lies inside it. -/
theorem confined_locate (base : String) (p : ProjectPath) : Path.Confined base (p.locate base) := by
  by_cases hnames : p.names = []
  · refine .inl ?_
    rw [components_locate, hnames, List.map_nil, List.append_nil]
  · refine .inr ⟨p.names, hnames, p.ordinary, ?_, components_locate base p⟩
    unfold locate
    rw [if_neg hnames]
    rfl

/-- And so it does where it is joined to the base though it is the root. -/
theorem confined_join (base : String) (p : ProjectPath) :
    Path.Confined base (Path.join base p.text) := by
  by_cases hnames : p.names = []
  · have htext : p.text = "" := by
      unfold text
      rw [hnames]
      rfl
    rw [htext]
    exact .inl (Path.components_join_empty base)
  · have hlocate := confined_locate base p
    unfold locate at hlocate
    rwa [if_neg hnames] at hlocate

end ProjectPath

namespace Dialogue

/-- Where a request leads, as the path is spelled to the store or to the formatter. -/
def Request.place? (base : String) : Request → Option String
  | read path | isFile path | list path | write path _ | remove path => some path
  | format p _ => some (Path.join base p.text)
  | notice _ => none

/-- The request does not lead out of the project. -/
def Request.Confined (base : String) (r : Request) : Prop :=
  ∀ path, r.place? base = some path → Path.Confined base path

theorem Request.confined_of_place {base path : String} {r : Request}
    (hplace : r.place? base = some path) (h : Path.Confined base path) : r.Confined base := by
  intro path' hpath'
  obtain rfl := Option.some.inj (hplace.symm.trans hpath')
  exact h

end Dialogue

/-! ### Codemods as scripts -/

/-- A call on an overlay, with the paths as they are spelled. -/
inductive Overlay.Call where
  | change (op : Operation)
  | content (path : String)
  | has (path : String)
  | onDisk (path : String)
  | entries (folder : String)
  | changes
  | flush

/-- The answers to a call. -/
@[reducible] def Overlay.Call.Answer : Overlay.Call → Type
  | change _ => Option OverlayError
  | content _ => Option String
  | has _ | onDisk _ => Bool
  | entries _ => List String
  | changes => ChangeSet
  | flush => Option FlushError

/-- A codemod, call by call: what it does next may depend on the answers. -/
inductive Script where
  | done
  | fail (cause : Failure)
  | call (c : Overlay.Call) (next : c.Answer → Script)

/-- What an overlay answers to a call, and what becomes of it. -/
def Overlay.answer (o : Overlay) : (c : Call) → Overlay × c.Answer
  | .change op => o.inPlace op
  | .content path => (o, o.content? path)
  | .has path => (o, o.has path)
  | .onDisk path => (o, o.onDisk path)
  | .entries folder => (o, o.entries folder)
  | .changes => (o, o.records)
  | .flush => ({ o with project := o.flush.1 }, o.flush.2)

/-- A script on an overlay, as a codemod runs. -/
def Script.run : Script → Overlay → Except Halt Overlay
  | done, o => .ok o
  | fail cause, o => .error ⟨cause, o.project⟩
  | call c next, o => (next (o.answer c).2).run (o.answer c).1

/-- The codemod of a script, which may depend on the options. -/
def Codemod.ofScript (name : String) (schema : Option Schema) (script : Options → Script) :
    Codemod :=
  ⟨name, schema, fun o options => (script options).run o⟩

namespace Dialogue

/-- The dialogue of a call. -/
def ofCall (base : String) (records : ChangeSet) :
    (c : Overlay.Call) → Dialogue (ChangeSet × c.Answer)
  | .change op => change base records op
  | .content path => return (records, ← contentAt base records (.resolve base path))
  | .has path => return (records, ← hasAt base records (.resolve base path))
  | .onDisk path => return (records, ← storedAt base (.resolve base path))
  | .entries folder => return (records, ← entriesAt base records (.resolve base folder))
  | .changes => return (records, records)
  | .flush => return (records, ← flush base records)

/-- The dialogue of a script: the records that it leaves, or why it stopped. -/
def ofScript (base : String) : Script → ChangeSet → Dialogue (Except Failure ChangeSet)
  | .done, records => return .ok records
  | .fail cause, _ => return .error cause
  | .call c next, records => do
    let (records, x) ← ofCall base records c
    ofScript base (next x) records

/-- How the work of a step on files ends. -/
inductive Ending where
  | stopped (cause : Failure)
  | unflushed (e : FlushError)
  | flushed (records : ChangeSet)

/-- The dialogue of what is done with the records that a codemod leaves: the formatter is asked
about the files that are to be written, and then everything is carried out. -/
def carryOut (base : String) (records : ChangeSet) : Dialogue Ending := do
  let files := records.filterMap fun (p, r) => r.content?.map fun content => (p, content)
  let records ← formatFiles files records
  match ← flush base records with
  | some e => return .unflushed e
  | none => return .flushed records

/-- The dialogue of a step: its script on a fresh overlay, and what is done with the records. -/
def ofStep (base : String) (script : Script) : Dialogue Ending := do
  match ← ofScript base script [] with
  | .error cause => return .stopped cause
  | .ok records => carryOut base records

/-! ### Every request is confined -/

variable (base : String) (records : ChangeSet)

theorem all_contentAt (p : ProjectPath) :
    (contentAt base records p).All (Request.Confined base) := by
  unfold contentAt
  split
  · exact .pure _
  · have hread : (Request.read (p.locate base)).Confined base :=
      Request.confined_of_place rfl (p.confined_locate base)
    exact (All.request hread).bind fun _ => .pure _

theorem all_storedAt (p : ProjectPath) : (storedAt base p).All (Request.Confined base) := by
  unfold storedAt
  split
  · exact .pure _
  · exact .request (Request.confined_of_place rfl (p.confined_locate base))

theorem all_hasAt (p : ProjectPath) : (hasAt base records p).All (Request.Confined base) := by
  unfold hasAt
  split
  · exact .pure _
  · exact all_storedAt base p

theorem all_entriesAt (folder : ProjectPath) :
    (entriesAt base records folder).All (Request.Confined base) :=
  (All.request (Request.confined_of_place rfl (folder.confined_locate base))).bind fun _ => .pure _

theorem all_addAt (p : ProjectPath) (content : String) :
    (addAt base records p content).All (Request.Confined base) := by
  refine (all_hasAt base records p).bind fun has => ?_
  split <;> exact .pure _

theorem all_updateAt (p : ProjectPath) (content : String) :
    (updateAt base records p content).All (Request.Confined base) := by
  refine (all_contentAt base records p).bind fun current? => ?_
  split
  · exact .pure _
  · split
    · exact .pure _
    · split <;> exact .pure _

theorem all_deleteAt (p : ProjectPath) : (deleteAt base records p).All (Request.Confined base) := by
  unfold deleteAt
  split
  · exact .pure _
  · exact .pure _
  · exact .pure _
  · refine (all_storedAt base p).bind fun stored => ?_
    split <;> exact .pure _

theorem all_renameAt (p q : ProjectPath) :
    (renameAt base records p q).All (Request.Confined base) := by
  refine (all_contentAt base records p).bind fun content? => ?_
  split
  · exact .pure _
  · refine (all_hasAt base records q).bind fun has => ?_
    split
    · exact .pure _
    · -- The paths are resolved again here, which makes them project paths all the same.
      refine (all_deleteAt base records _).bind fun deleted => ?_
      split
      · exact .pure _
      · exact all_addAt base _ _ _

theorem all_flush : (flush base records).All (Request.Confined base) := by
  induction records with
  | nil => exact .pure _
  | cons change rest ih =>
      obtain ⟨p, r⟩ := change
      have happly : (apply base p r).All (Request.Confined base) := by
        cases r <;> exact .request (Request.confined_of_place rfl (p.confined_locate base))
      refine happly.bind fun failed? => ?_
      split
      · exact ih
      · exact .pure _

theorem all_formatFiles (files : List (ProjectPath × String)) :
    (formatFiles files records).All (Request.Confined base) := by
  induction files generalizing records with
  | nil => exact .pure _
  | cons file files ih =>
      have hformat : (formatFile records file).All (Request.Confined base) := by
        refine (All.request (Request.confined_of_place rfl (file.1.confined_join base))).bind
          fun formatted? => ?_
        split
        · split
          · exact .pure _
          · split <;> exact .pure _
        · exact .pure _
        · exact (All.request fun path hpath => by cases hpath).bind fun _ => .pure _
      exact hformat.bind fun records => ih records

/-- **Whatever paths a call spells, it asks for places inside the project only.** -/
theorem all_ofCall (c : Overlay.Call) : (ofCall base records c).All (Request.Confined base) := by
  cases c with
  | change op =>
      cases op with
      | add path content => exact all_addAt base records _ content
      | update path content => exact all_updateAt base records _ content
      | delete path => exact all_deleteAt base records _
      | rename source target => exact all_renameAt base records _ _
  | content path => exact (all_contentAt base records _).bind fun _ => .pure _
  | has path => exact (all_hasAt base records _).bind fun _ => .pure _
  | onDisk path => exact (all_storedAt base _).bind fun _ => .pure _
  | entries folder => exact (all_entriesAt base records _).bind fun _ => .pure _
  | changes => exact .pure _
  | flush => exact (all_flush base records).bind fun _ => .pure _

/-- And so does a script, call by call. -/
theorem all_ofScript (script : Script) :
    (ofScript base script records).All (Request.Confined base) := by
  induction script generalizing records with
  | done | fail => exact .pure _
  | call c next ih => exact (all_ofCall base records c).bind fun x => ih x.2 x.1

theorem all_carryOut : (carryOut base records).All (Request.Confined base) := by
  refine (all_formatFiles base _ _).bind fun records => (all_flush base records).bind fun _ => ?_
  split <;> exact .pure _

theorem all_ofStep (script : Script) : (ofStep base script).All (Request.Confined base) := by
  refine (all_ofScript base [] script).bind fun x => ?_
  split
  · exact .pure _
  · exact all_carryOut base _

end Dialogue

namespace Overlay

theorem inPlace_project (o : Overlay) (op : Operation) :
    (o.inPlace op).1.project = o.project := by
  rw [inPlace_eq]
  cases h : o.perform op with
  | error e => rfl
  | ok o' => exact perform_project h

end Overlay

namespace Session

open Dialogue

variable (c : Collaborators) (s : Session) (records : ChangeSet)

/-! ### The dialogues have the effect of the calls -/

/-- The session with the project that an overlay lies over. -/
def onto (s : Session) (o : Overlay) : Session := { s with project := o.project }

theorem run_ofCall (call : Overlay.Call) :
    (ofCall s.project.base records call).run (answer c) s =
      (s.onto ((s.overlay records).answer call).1,
        (((s.overlay records).answer call).1.records, ((s.overlay records).answer call).2)) := by
  unfold ofCall
  cases call with
  | change op =>
      have honto : s.onto ((s.overlay records).inPlace op).1 = s := by
        unfold onto
        rw [Overlay.inPlace_project]
        rfl
      show (change s.project.base records op).run (answer c) s =
        (s.onto ((s.overlay records).inPlace op).1, told ((s.overlay records).inPlace op))
      rw [run_change, honto]
  | content path => simp only [run_bind, run_contentAt]; rfl
  | has path => simp only [run_bind, run_hasAt]; rfl
  | onDisk path => simp only [run_bind, run_storedAt]; rfl
  | entries folder => simp only [run_bind, run_entriesAt]; rfl
  | changes => rfl
  | flush => simp only [run_bind, run_flush]; rfl

theorem base_answer (o : Overlay) (call : Overlay.Call) :
    (o.answer call).1.project.base = o.project.base := by
  cases call with
  | change op => exact congrArg Project.base (o.inPlace_project op)
  | flush => exact o.project.base_applyAll o.records
  | _ => rfl

/-- However a script ends, it leaves the project at its base. -/
theorem base_run (script : Script) (o : Overlay) :
    match script.run o with
    | .ok o' => o'.project.base = o.project.base
    | .error halt => halt.project.base = o.project.base := by
  induction script generalizing o with
  | done => rfl
  | fail cause => rfl
  | call call next ih =>
      have hnext := ih (o.answer call).2 (o.answer call).1
      rw [base_answer] at hnext
      exact hnext

/-- **A script has the effect of its calls.** -/
theorem run_ofScript (script : Script) :
    (ofScript s.project.base script records).run (answer c) s =
      match script.run (s.overlay records) with
      | .ok o => (s.onto o, .ok o.records)
      | .error halt => ({ s with project := halt.project }, .error halt.cause) := by
  -- By induction over the script, from any session: a flush in the middle moves the project on.
  induction script generalizing s records with
  | done => rfl
  | fail cause => rfl
  | call call next ih =>
      unfold ofScript Script.run
      simp only [run_bind, run_ofCall]
      have hbase : s.project.base = (s.onto ((s.overlay records).answer call).1).project.base :=
        (base_answer (s.overlay records) call).symm
      rw [hbase]
      exact ih _ _ _

/-- What becomes of a step once its work on files has ended: it stops, or it is reported and
packages are installed. -/
def conclude (step : Step) : Session × Ending → Session × Except RunError Outcome
  | (s, .stopped cause) => (s, .error (.execution step.name cause))
  | (s, .unflushed e) => (s, .error (.flush step.name e))
  | (s, .flushed records) =>
    let s := s.note (.report step.name step.description records)
    let (s, installed) := s.install c (s.overlay records)
    (s, .ok ⟨step.name, records, installed, false⟩)

theorem run_carryOut (step : Step) :
    conclude c step ((Dialogue.carryOut s.project.base records).run (answer c) s) =
      s.carryOut c step (s.overlay records) := by
  have hformat : (formatFiles (s.overlay records).pendingFiles records).run (answer c) s =
      ((s.formatAll c (s.overlay records)).2, (s.formatAll c (s.overlay records)).1.records) :=
    run_formatFiles c s (s.overlay records) (s.overlay records).pendingFiles
  obtain ⟨hoverlay, hsession⟩ := formatAll_projects (c := c) s (s.overlay records)
  unfold Dialogue.carryOut carryOut
  simp only [run_bind]
  rw [show (records.filterMap fun e => e.2.content?.map fun content => (e.1, content)) =
    (s.overlay records).pendingFiles from rfl, hformat]
  rcases hformatted : s.formatAll c (s.overlay records) with ⟨o, s'⟩
  rw [hformatted] at hoverlay hsession
  simp only at hoverlay hsession ⊢
  have hsame : o.project = s'.project := hoverlay.trans hsession.symm
  rw [← hsession, run_flush, flush_eq (congrArg Project.base hsame)]
  unfold Overlay.flush
  rw [hsame]
  rcases s'.project.applyAll o.records with ⟨project, _ | e⟩
  · rfl
  · rfl

/-- **A step has the effect of its dialogue.** -/
theorem apply_ofScript (step : Step) {name : String} {schema : Option Schema}
    {script : Options → Script} (hstep : step.codemod = .ofScript name schema script)
    (raw : Options) :
    s.apply c step raw =
      match step.codemod.options step.name raw with
      | .error e => (s, .error (.validation e))
      | .ok options =>
        conclude c step ((ofStep s.project.base (script options)).run (answer c) s) := by
  unfold apply execute
  cases step.codemod.options step.name raw with
  | error e => rfl
  | ok options =>
      have hrun : step.codemod.run (.empty s.project) options =
          (script options).run (s.overlay []) := by
        rw [hstep]
        rfl
      simp only
      rw [hrun]
      unfold ofStep
      simp only [run_bind, run_ofScript]
      have hleft := base_run (script options) (s.overlay [])
      cases hscript : (script options).run (s.overlay []) with
      | error halt =>
          rw [hscript] at hleft
          simp only
          rw [atop_eq hleft]
          rfl
      | ok o =>
          -- What the script left lies over the project as the script's own flushes left it.
          rw [hscript] at hleft
          have hbase : s.project.base = (s.onto o).project.base := hleft.symm
          simp only
          rw [atop_eq hleft]
          show carryOut c (s.onto o) step ((s.onto o).overlay o.records) = _
          rw [← run_carryOut, hbase]

/-- **A codemod cannot reach outside the project.**

However the base is spelled, and whatever calls with whatever spellings a codemod makes, its
step is its dialogue with the files and the formatter; and whatever these answer, each request
of the dialogue is for the base itself or for the base joined with ordinary names. -/
theorem apply_confined (c : Collaborators) (s : Session) (step : Step) (name : String)
    (schema : Option Schema) (script : Options → Script)
    (hstep : step.codemod = .ofScript name schema script) (raw : Options) :
    (s.apply c step raw =
      match step.codemod.options step.name raw with
      | .error e => (s, .error (.validation e))
      | .ok options =>
        conclude c step ((ofStep s.project.base (script options)).run (answer c) s)) ∧
      ∀ options, (ofStep s.project.base (script options)).All (Request.Confined s.project.base) :=
  ⟨apply_ofScript c s step hstep raw, fun options => all_ofStep _ (script options)⟩

/-- A codemod that climbs, that is absolute and that uses backslashes writes below the base. -/
theorem apply_confined_climbing :
    let script : Script := .call (.change (.add "../..\\../etc//passwd" "x")) fun _ =>
      .call (.change (.rename "/etc/./passwd" "..\\b")) fun _ => .done
    let step : Step := .migration ⟨"001", "1.0.0", "Climbs", .ofScript "climb" none fun _ => script⟩
    let s : Session := .start (.ofTexts [])
    (ofStep "/p" script).All (Request.Confined "/p") ∧
      (s.apply .none step []).1.project.content? ⟨["b"], by decide⟩ = some "x" := by
  intro script step s
  obtain ⟨-, hconfined⟩ :=
    apply_confined .none s step "climb" none (fun _ => script) rfl []
  exact ⟨hconfined [], by decide +kernel⟩

end Session

end Upkeep
