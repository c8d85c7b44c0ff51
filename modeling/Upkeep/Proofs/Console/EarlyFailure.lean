/-
Commands that fail before they change anything.

A command for one codemod checks the project, looks the codemod up, validates its options and
runs it, and only then carries changes out.  Up to there it asks version control two questions
and starts no other program.  So a command that fails on the way leaves every file as it was,
whatever the programs answer; and its error tells that it failed there, because no later stage
fails with such an error.

The stages are followed one by one: `EarlyExactly` is what is known of the ending of each, and
the checks in front of a stage add only their own failures to it.
-/
import Upkeep.Console.Command
import Upkeep.Proofs.Pipeline.Halting

namespace Upkeep

/-! ### The questions to version control -/

namespace Git

variable {programs : Programs} {directory text : String} {occasion : Occasion} {c : Call}

theorem output_eq_ok_iff {result : Except LaunchError Answer} :
    output result = .ok text ↔
      ∃ answer, result = .ok answer ∧ answer.status = 0 ∧
        Text.trimmed answer.stdout.shown = text := by
  unfold output
  cases result with
  | error e => simp
  | ok answer => by_cases h : answer.status = 0 <;> simp [h]

/-- Asking for a command starts no other. -/
theorem calls_ask (programs : Programs) (occasion : Occasion) (c : Call) :
    ∀ call ∈ (ask programs occasion c).1.calls, call = c := by
  intro call hcall
  unfold ask Transcript.ofCall at hcall
  cases hresult : programs occasion c with
  | error e => simp [hresult] at hcall
  | ok answer => simpa [hresult] using hcall

/-- The command ends well, and its output without the blanks around it is this text. -/
def Answers (programs : Programs) (c : Call) (text : String) : Prop :=
  ∃ answer, programs .check c = .ok answer ∧ answer.status = 0 ∧
    Text.trimmed answer.stdout.shown = text

theorem isWorkTree_iff :
    (isWorkTree programs directory).2 = true ↔
      Answers programs (insideCall directory) "true" := by
  show decide ((output (programs .check (insideCall directory))).toOption = some "true") = true ↔ _
  rw [decide_eq_true_iff]
  unfold Answers
  rw [← output_eq_ok_iff]
  cases output (programs .check (insideCall directory)) <;> simp [Except.toOption]

theorem isClean_iff :
    (isClean programs directory).2 = .ok true ↔ Answers programs (statusCall directory) "" := by
  show (output (programs .check (statusCall directory))).map String.isEmpty = .ok true ↔ _
  unfold Answers
  rw [← output_eq_ok_iff]
  cases output (programs .check (statusCall directory)) <;> simp [Except.map]

end Git

/-! ### The catalogs -/

theorem Catalog.mem_of_findMigration {catalog : List Migration} {key : String} {m : Migration}
    (h : findMigration catalog key = .ok m) : m ∈ catalog := by
  unfold findMigration at h
  split at h
  next hfind =>
    cases h
    exact List.mem_of_find?_eq_some hfind
  next => cases h

theorem Catalog.mem_of_findAddition {catalog : List Addition} {name : String} {x : Addition}
    (h : findAddition catalog name = .ok x) : x ∈ catalog := by
  unfold findAddition at h
  split at h
  next hfind =>
    cases h
    exact List.mem_of_find?_eq_some hfind
  next => cases h

namespace Registry

theorem stopsInPlace_of_mem_migrations {m : Migration} (h : m ∈ migrations) :
    m.codemod.StopsInPlace := by
  simp only [migrations, List.mem_cons, List.not_mem_nil, or_false] at h
  rcases h with rfl | rfl | rfl
  all_goals exact Codemod.stopsInPlace_ofEdit _ _ _

theorem stopsInPlace_of_mem_additions {x : Addition} (h : x ∈ additions) :
    x.codemod.StopsInPlace := by
  simp only [additions, List.mem_cons, List.not_mem_nil, or_false] at h
  rcases h with rfl | rfl
  all_goals exact Codemod.stopsInPlace_ofEdit _ _ _

end Registry

namespace Console

variable {a : Surroundings} {s : Store} {root : String} {programs : Programs} {P Q : Prop}
  {ending : Ending} {e : CommandError} {mode : Mode} {request : Request}

/-! ### What is said of an ending -/

/-- The command did not get past a codemod. -/
def CommandError.Early : CommandError → Prop
  | .usage _ => False
  | .noWorkTree | .unclean | .noPlugin _ | .noStatus _ | .catalog _ | .noAddition => True
  | .run e => e.Early

theorem CommandError.Early.status (h : e.Early) : e.status = 1 := by
  cases e with
  | usage e => exact absurd h id
  | _ => rfl

/-- The store is as it was, and no program was started but version control, which was asked
whether there is a work tree and what has changed in it. -/
structure LeavesAlone (root : String) (s : Store) (ending : Ending) : Prop where
  store : ending.store = s
  calls : ∀ call ∈ ending.transcript.calls,
    call = Git.insideCall root ∨ call = Git.statusCall root

/-- A command fails early exactly in this case, and then it leaves everything alone. -/
structure EarlyExactly (root : String) (s : Store) (P : Prop) (ending : Ending) : Prop where
  iff : (∃ e, ending.result = .error e ∧ e.Early) ↔ P
  alone : P → LeavesAlone root s ending

namespace EarlyExactly

theorem congr (h : EarlyExactly root s P ending) (hiff : P ↔ Q) : EarlyExactly root s Q ending :=
  ⟨h.iff.trans hiff, fun hq => h.alone (hiff.mpr hq)⟩

/-- The ending of a stage that fails before anything is changed. -/
theorem of_early (hp : P) (hresult : ending.result = .error e) (he : e.Early)
    (halone : LeavesAlone root s ending) : EarlyExactly root s P ending :=
  ⟨iff_of_true ⟨e, hresult, he⟩ hp, fun _ => halone⟩

theorem stopped (hp : P) (he : e.Early) : EarlyExactly root s P (.stopped s e) :=
  of_early hp rfl he ⟨rfl, fun _ hcall => nomatch hcall⟩

/-- The ending of a stage that does not fail, or later. -/
theorem of_late (hp : ¬P) (h : ∀ e, ending.result = .error e → ¬e.Early) :
    EarlyExactly root s P ending :=
  ⟨iff_of_false (fun ⟨e, he, hearly⟩ => h e he hearly) hp, fun hc => absurd hc hp⟩

/-- To show a failure changes nothing. -/
theorem showFailure (h : EarlyExactly root s P ending) (color : Bool) :
    EarlyExactly root s P (ending.showFailure color) := by
  obtain ⟨transcript, store, result⟩ := ending
  cases result with
  | ok done => exact h
  | error e =>
      refine ⟨h.iff, fun hp => ⟨(h.alone hp).store, fun call hcall => ?_⟩⟩
      refine (h.alone hp).calls call ?_
      simpa [Ending.showFailure, Transcript.warn] using hcall

end EarlyExactly

/-! ### The checks -/

/-- Version control reports a work tree without changes, and the project is a plugin. -/
structure Safe (programs : Programs) (s : Store) (root : String) : Prop where
  workTree : Git.Answers programs (Git.insideCall root) "true"
  clean : Git.Answers programs (Git.statusCall root) ""
  plugin : s.isFile (pluginFile root) = true

theorem checkClean_cases (programs : Programs) (root : String) :
    Git.Answers programs (Git.statusCall root) "" ∧ (checkClean programs root).2 = .ok () ∨
      ¬Git.Answers programs (Git.statusCall root) "" ∧
        ∃ e : CommandError, e.Early ∧ (checkClean programs root).2 = .error e := by
  rw [← Git.isClean_iff]
  unfold checkClean
  rcases Git.isClean programs root with ⟨t, cause | clean⟩
  · exact .inr ⟨nofun, .noStatus cause, trivial, rfl⟩
  · cases clean with
    | true => exact .inl ⟨rfl, rfl⟩
    | false => exact .inr ⟨nofun, .unclean, trivial, rfl⟩

theorem calls_checkClean (programs : Programs) (root : String) :
    ∀ call ∈ (checkClean programs root).1.calls, call = Git.statusCall root := by
  have hcalls := Git.calls_ask programs .check (Git.statusCall root)
  have hfst : (checkClean programs root).1 =
      (Git.ask programs .check (Git.statusCall root)).1 := by
    unfold checkClean Git.isClean
    cases h : (Git.ask programs .check (Git.statusCall root)).2 <;> simp [h, Except.map]
  rwa [hfst]

/-- The checks only ask. -/
theorem calls_check (programs : Programs) (s : Store) (root : String) :
    ∀ call ∈ (check programs s root).1.calls,
      call = Git.insideCall root ∨ call = Git.statusCall root := by
  intro call hcall
  have hinside : ∀ call ∈ (Git.isWorkTree programs root).1.calls, call = Git.insideCall root :=
    Git.calls_ask programs .check (Git.insideCall root)
  unfold check at hcall
  rcases htree : Git.isWorkTree programs root with ⟨t, _ | _⟩
  · rw [htree] at hcall hinside
    exact .inl (hinside call hcall)
  · rw [htree] at hcall hinside
    rcases List.mem_append.mp hcall with hcall | hcall
    · exact .inl (hinside call hcall)
    · exact .inr (calls_checkClean programs root call hcall)

/-- **The checks pass exactly where a project is safe to change.** -/
theorem check_cases (programs : Programs) (s : Store) (root : String) :
    Safe programs s root ∧ (check programs s root).2 = .ok () ∨
      ¬Safe programs s root ∧
        ∃ e : CommandError, e.Early ∧ (check programs s root).2 = .error e := by
  have hinside : (Git.isWorkTree programs root).2 = true ↔
      Git.Answers programs (Git.insideCall root) "true" := Git.isWorkTree_iff
  unfold check
  rcases htree : Git.isWorkTree programs root with ⟨t, inside⟩
  rw [htree] at hinside
  by_cases h : inside = true
  · subst h
    rcases checkClean_cases programs root with ⟨hclean, hresult⟩ | ⟨hchanged, e, he, hresult⟩
    · simp only [hresult]
      by_cases hplugin : s.isFile (pluginFile root) = true
      · exact .inl ⟨⟨hinside.mp rfl, hclean, hplugin⟩, if_pos hplugin⟩
      · exact .inr ⟨fun hsafe => hplugin hsafe.plugin, .noPlugin root, trivial, if_neg hplugin⟩
    · simp only [hresult]
      exact .inr ⟨fun hsafe => hchanged hsafe.clean, e, he, rfl⟩
  · obtain rfl : inside = false := by simpa using h
    exact .inr ⟨fun hsafe => h (hinside.mpr hsafe.workTree), .noWorkTree, trivial, rfl⟩

/-- The checks in front of a stage add their own failures to it. -/
theorem EarlyExactly.checked {next : Unit → Ending} (h : EarlyExactly root s P (next ()))
    (force : Bool) :
    EarlyExactly root s (force = false ∧ ¬Safe a.programs s root ∨ P)
      (checked a s root force next) := by
  unfold Console.checked
  by_cases hforce : force = true
  · rw [if_pos hforce]
    exact h.congr ⟨.inr, fun hp => hp.resolve_left fun hc => nomatch hforce.symm.trans hc.1⟩
  rw [if_neg hforce]
  have hcalls := calls_check a.programs s root
  rcases check_cases a.programs s root with ⟨hsafe, hresult⟩ | ⟨hrisky, e, he, hresult⟩
  · rcases hcheck : check a.programs s root with ⟨t, result⟩
    rw [hcheck] at hresult hcalls
    cases hresult
    refine ⟨h.iff.trans ⟨.inr, fun hp => hp.resolve_left fun hc => hc.2 hsafe⟩, fun hp => ?_⟩
    have halone := h.alone (hp.resolve_left fun hc => hc.2 hsafe)
    refine ⟨halone.store, fun call hcall => ?_⟩
    exact (List.mem_append.mp hcall).elim (hcalls call) (halone.calls call)
  · rcases hcheck : check a.programs s root with ⟨t, result⟩
    rw [hcheck] at hresult hcalls
    cases hresult
    exact .of_early (.inl ⟨by simpa using hforce, hrisky⟩) rfl he ⟨rfl, hcalls⟩

/-! ### The codemod -/

/-- The request names this step, with these options. -/
inductive Request.Names : Request → Step → Options → Prop
  | migration {mode : Mode} {key : String} {m : Migration}
      (h : Catalog.findMigration Registry.migrations key = .ok m) :
      Names (.update mode (some key)) (.migration m) []
  | addition {mode : Mode} {name : String} {options : List (String × String)} {x : Addition}
      (h : Catalog.findAddition Registry.additions name = .ok x) :
      Names (.add mode (some name) options) (.addition x)
        (Entries.putAll [] (options.map fun (key, value) => (key, .string value)))

/-- The request names nothing in the catalogs, or a step that stops. -/
def Request.ComesToNothing (request : Request) (p : Project) : Prop :=
  ∀ step raw, request.Names step raw → step.Stops p raw

/-- How a request that is for one codemod changes the project. -/
def Request.mode? : Request → Option Mode
  | .update mode (some _) | .add mode _ _ => some mode
  | .update _ none | .version | .help _ | .migrations _ _ => none

/-- A run of one step fails early exactly where the step stops. -/
theorem EarlyExactly.conclude (w : Workshop) (t : Attempt) (success : String)
    (hstart : t.desk.session = Session.start ⟨root, s⟩)
    (hinplace : t.step.codemod.StopsInPlace) :
    EarlyExactly root s (t.step.Stops ⟨root, s⟩ t.raw)
      (w.conclude (t.finish w.collaborators).1.session (t.finish w.collaborators).2 success) := by
  have hproject : t.desk.session.project = ⟨root, s⟩ := by rw [hstart]; rfl
  by_cases hstops : t.step.Stops ⟨root, s⟩ t.raw
  · obtain ⟨e, he, hfinish⟩ := Attempt.finish_of_stops hinplace (hproject ▸ hstops)
    rw [hfinish, hstart]
    exact .of_early hstops rfl he ⟨rfl, fun _ hcall => nomatch hcall⟩
  · refine .of_late hstops fun e he hearly => ?_
    rw [← hproject] at hstops
    unfold Workshop.conclude at he
    cases hresult : (t.finish w.collaborators).2 with
    | ok outcome => simp [hresult] at he
    | error cause =>
        rw [hresult] at he
        cases he
        exact Attempt.not_early_of_finish hstops hresult hearly

theorem earlyExactly_runOnly (w : Workshop) (s : Store) (mode : Mode) (key : String) :
    EarlyExactly w.root s (Request.ComesToNothing (.update mode (some key)) ⟨w.root, s⟩)
      (runOnly w s key) := by
  unfold runOnly
  cases hfind : Catalog.findMigration Registry.migrations key with
  | error e =>
      refine .stopped (fun step raw hnames => ?_) trivial
      cases hnames with
      | migration h => cases hfind.symm.trans h
  | ok m =>
      have hinplace : m.codemod.StopsInPlace :=
        Registry.stopsInPlace_of_mem_migrations (Catalog.mem_of_findMigration hfind)
      have hends := EarlyExactly.conclude w
        ⟨⟨Session.start ⟨w.root, s⟩, Settings.load ⟨w.root, s⟩⟩, .migration m, []⟩
        s!"Ran migration {key}" rfl hinplace
      refine hends.congr ⟨fun hstops step raw hnames => ?_, fun h => h _ _ (.migration hfind)⟩
      cases hnames with
      | migration h =>
          cases hfind.symm.trans h
          exact hstops

theorem earlyExactly_runAddition (w : Workshop) (s : Store) (mode : Mode) (name : String)
    (options : List (String × String)) {x : Addition}
    (hfind : Catalog.findAddition Registry.additions name = .ok x) :
    EarlyExactly w.root s (Request.ComesToNothing (.add mode (some name) options) ⟨w.root, s⟩)
      (runAddition w s x options) := by
  have hinplace : x.codemod.StopsInPlace :=
    Registry.stopsInPlace_of_mem_additions (Catalog.mem_of_findAddition hfind)
  have hends := EarlyExactly.conclude w
    ⟨⟨Session.start ⟨w.root, s⟩, Settings.load ⟨w.root, s⟩⟩, .addition x,
      Entries.putAll [] (options.map fun (key, value) => (key, .string value))⟩
    s!"Added {x.name}" rfl hinplace
  refine hends.congr ⟨fun hstops step raw hnames => ?_, fun h => h _ _ (.addition hfind)⟩
  cases hnames with
  | addition h =>
      cases hfind.symm.trans h
      exact hstops

/-! ### The commands -/

theorem earlyExactly_update (a : Surroundings) (s : Store) (mode : Mode) (key : String) :
    EarlyExactly (mode.path.getD a.directory) s
      (mode.force = false ∧ ¬Safe a.programs s (mode.path.getD a.directory) ∨
        Request.ComesToNothing (.update mode (some key)) ⟨mode.path.getD a.directory, s⟩)
      (update a s mode (some key)) := by
  unfold update
  refine EarlyExactly.checked ?_ mode.force
  exact earlyExactly_runOnly
    (Workshop.forProject a s (mode.path.getD a.directory) mode.commit) s mode key

theorem earlyExactly_add (a : Surroundings) (s : Store) (mode : Mode) (name : Option String)
    (options : List (String × String)) :
    EarlyExactly (mode.path.getD a.directory) s
      (mode.force = false ∧ ¬Safe a.programs s (mode.path.getD a.directory) ∨
        Request.ComesToNothing (.add mode name options) ⟨mode.path.getD a.directory, s⟩)
      (add a s mode name options) := by
  -- The addition is looked up before the checks, so they are not reached without one.
  unfold add
  cases name with
  | none =>
      refine .of_early (.inr fun step raw hnames => nomatch hnames) rfl trivial ⟨rfl, ?_⟩
      exact fun _ hcall => nomatch hcall
  | some name =>
      simp only
      cases hfind : Catalog.findAddition Registry.additions name with
      | error e =>
          refine .stopped (.inr fun step raw hnames => ?_) trivial
          cases hnames with
          | addition h => cases hfind.symm.trans h
      | ok x =>
          refine EarlyExactly.checked ?_ mode.force
          exact earlyExactly_runAddition
            (Workshop.forProject a s (mode.path.getD a.directory) mode.commit) s mode name options
            hfind

/-- **A command that fails before its changes are carried out leaves everything alone.**  A
command for one codemod fails early exactly if its checks fail, the catalogs do not have what it
names, or the options or the codemod stop it.  Then it ends with status one, no file has
changed, and no program was started but version control, to be asked.  Without force that is
so wherever the project is not safe to change. -/
theorem run_leaves_alone {args : List String} (hread : Request.read args = .ok request)
    (hmode : request.mode? = some mode) :
    let root := mode.path.getD a.directory
    let ending := run a s args
    let unchecked := mode.force = false ∧ ¬Safe a.programs s root
    let stops := unchecked ∨ request.ComesToNothing ⟨root, s⟩
    ((∃ e, ending.result = .error e ∧ e.Early) ↔ stops) ∧
      (stops → ending.status = 1 ∧ LeavesAlone root s ending) := by
  intro root ending unchecked stops
  have hends : EarlyExactly root s stops ending := by
    have hperform : EarlyExactly root s stops (perform a s request) := by
      cases request with
      | update mode' only =>
          cases only with
          | none => cases hmode
          | some key =>
              cases hmode
              exact earlyExactly_update a s mode key
      | add mode' name options =>
          cases hmode
          exact earlyExactly_add a s mode name options
      | version => cases hmode
      | help topic => cases hmode
      | migrations first last => cases hmode
    have hrun : ending = (perform a s request).showFailure a.color := by
      show run a s args = _
      unfold run
      rw [hread]
    rw [hrun]
    exact hperform.showFailure a.color
  refine ⟨hends.iff, fun hstops => ⟨?_, hends.alone hstops⟩⟩
  obtain ⟨e, he, hearly⟩ := hends.iff.mpr hstops
  unfold Ending.status
  rw [he]
  exact hearly.status

/-- A project that is safe to change, with a manifest that the codemod cannot read. -/
theorem run_leaves_alone_unreadable :
    let programs : Programs := fun _ c =>
      .ok (if c = Git.insideCall "/p" then { stdout := .text "true\n" } else {})
    let s : Store :=
      (Project.ofTexts [("src/plugin.json", "\x7b\x7d"), ("package.json", "\x7b")]).store
    let args := ["update", "--only", "005-react-18-3"]
    let mode : Mode := ⟨false, false, none⟩
    let ending := run ⟨programs, false, "/p"⟩ s args
    Request.read args = .ok (.update mode (some "005-react-18-3")) ∧ Safe programs s "/p" ∧
      ending.status = 1 ∧ LeavesAlone "/p" s ending ∧
      ending.transcript.calls = [Git.insideCall "/p", Git.statusCall "/p"] := by
  intro programs s args mode ending
  have hread : Request.read args = .ok (.update mode (some "005-react-18-3")) := by decide +kernel
  have hsafe : Safe programs s "/p" :=
    ⟨⟨_, rfl, rfl, by decide +kernel⟩, ⟨_, rfl, rfl, by decide +kernel⟩, by decide +kernel⟩
  have hstops : (Step.migration Registry.migrations[1]).Stops ⟨"/p", s⟩ [] := by
    have hnone : (ReactUpgrade.codemod.run (.empty ⟨"/p", s⟩) []).toOption.isNone = true := by
      decide +kernel
    cases hrun : ReactUpgrade.codemod.run (.empty ⟨"/p", s⟩) [] with
    | error halt => exact .halted rfl hrun
    | ok o =>
        rw [hrun] at hnone
        cases hnone
  have hnothing : Request.ComesToNothing (.update mode (some "005-react-18-3")) ⟨"/p", s⟩ := by
    intro step raw hnames
    cases hnames with
    | @migration _ _ m h =>
        have hfind : Catalog.findMigration Registry.migrations "005-react-18-3" =
            .ok Registry.migrations[1] := rfl
        cases hfind.symm.trans h
        exact hstops
  obtain ⟨-, hearly⟩ := run_leaves_alone (a := ⟨programs, false, "/p"⟩) (s := s) hread rfl
  obtain ⟨hstatus, halone⟩ := hearly (.inr hnothing)
  exact ⟨hread, hsafe, hstatus, halone, by decide +kernel⟩

end Console

end Upkeep
